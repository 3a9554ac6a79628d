/-
This file models the pack, the container many small objects travel in, and settles when reading
one back can panic.

`decode` reads its length fields from bytes it did not write and adds them to a 64-bit position
before it tests the sum against the buffer. A key length is a 32-bit field and cannot carry the
position past 2^64; a body length is a 64-bit field and can. In a release build the sum then
wraps to a position before the body, passes the test, and the slice that follows runs backwards;
in a debug build the addition itself panics. Nothing else in the decoder can fail, so the
records reached with such a body length are exactly the inputs that stop the process.
-/

import Cicache.Lib.Text
import Mathlib.Logic.Relation

namespace Cicache

open Text

/-! ### Returning, failing and panicking -/

/-- How a call ends: with a value, with an error its caller handles, or in a panic. -/
inductive Return (Value : Type) : Type where
  | ok (value : Value)
  | err (message : String)
  | panicked
  deriving DecidableEq

namespace Return

/-- `?` and sequencing: anything but a value ends the call. -/
def bind {Value Result : Type} (result : Return Value) (next : Value → Return Result) :
    Return Result :=
  match result with
  | .ok value => next value
  | .err message => .err message
  | .panicked => .panicked

instance : Monad Return where
  pure := ok
  bind := bind

@[simp] theorem ok_bind {Value Result : Type} (value : Value) (next : Value → Return Result) :
    (ok value >>= next) = next value := rfl

@[simp] theorem err_bind {Value Result : Type} (message : String)
    (next : Value → Return Result) : ((err message : Return Value) >>= next) = err message := rfl

@[simp] theorem panicked_bind {Value Result : Type} (next : Value → Return Result) :
    ((panicked : Return Value) >>= next) = panicked := rfl

/-- A sequence that ends with a value passed through a value of its first part. -/
theorem bind_eq_ok {Value Result : Type} {result : Return Value} {next : Value → Return Result}
    {value : Result} :
    (result >>= next) = ok value ↔ ∃ first, result = ok first ∧ next first = ok value := by
  cases result <;> simp

@[simp] theorem pure_eq_ok {Value : Type} (value : Value) :
    (pure value : Return Value) = ok value :=
  rfl

end Return

/-- The two ways the program is compiled: additions on `usize` wrap in a release build and panic
in a debug build. -/
inductive Build where
  | release
  | debug
  deriving DecidableEq

/-- Addition on a 64-bit `usize`. -/
def usizeAdd (build : Build) (first second : Nat) : Return Nat :=
  match build with
  | .release => .ok ((first + second) % 2 ^ 64)
  | .debug => if first + second < 2 ^ 64 then .ok (first + second) else .panicked

/-- Taking a range of a buffer, which panics unless it runs forwards and ends inside. -/
def slice (raw : Bytes) (start stop : Nat) : Return Bytes :=
  if start ≤ stop ∧ stop ≤ raw.length then .ok ((raw.take stop).drop start) else .panicked

theorem usizeAdd_of_lt (build : Build) {first second : Nat} (small : first + second < 2 ^ 64) :
    usizeAdd build first second = .ok (first + second) := by
  cases build with
  | release => rw [usizeAdd, Nat.mod_eq_of_lt small]
  | debug => rw [usizeAdd, if_pos small]

/-- A sum that did not fall back behind its first term moved past it. -/
theorem usizeAdd_gt {build : Build} {first second sum : Nat}
    (added : usizeAdd build first second = .ok sum) (positive : 0 < second)
    (small : second < 2 ^ 64) (forwards : first ≤ sum) : first < sum := by
  cases build with
  | release =>
    rw [usizeAdd, Return.ok.injEq] at added
    omega
  | debug =>
    rw [usizeAdd] at added
    split at added
    · rw [Return.ok.injEq] at added
      omega
    · cases added

theorem slice_of_le {raw : Bytes} {start stop : Nat} (forwards : start ≤ stop)
    (inside : stop ≤ raw.length) : slice raw start stop = .ok ((raw.take stop).drop start) :=
  if_pos ⟨forwards, inside⟩

theorem slice_ok {raw part : Bytes} {start stop : Nat} (taken : slice raw start stop = .ok part) :
    start ≤ stop ∧ stop ≤ raw.length := by
  unfold slice at taken
  split at taken
  · assumption
  · cases taken

namespace Pack

/-- An object of a pack: its key and its body. -/
abbrev Object := String × Bytes

/-- The first bytes of every pack. -/
def MAGIC : Bytes := utf8 "CICP"

theorem length_MAGIC : MAGIC.length = 4 := by decide

/-! ### Writing -/

/-- The bytes of one object in a pack. -/
def record (object : Object) : Bytes :=
  leBytes 4 (utf8 object.1).length ++ utf8 object.1 ++ leBytes 8 object.2.length ++ object.2

/-- The loop of `encode`: appends each object that keeps the buffer within `max_bytes`. -/
def encodeLoop (max_bytes : Nat) (out : Bytes) : List Object → Bytes
  | [] => out
  | object :: rest =>
      if out.length + (4 + (utf8 object.1).length + 8 + object.2.length) > max_bytes then
        encodeLoop max_bytes out rest
      else encodeLoop max_bytes (out ++ record object) rest

/-- `pack::encode`. -/
def encode (objects : List Object) (max_bytes : Nat) : Bytes := encodeLoop max_bytes MAGIC objects

/-! ### Reading -/

/-- One round of the loop of `decode`: the object at the position and where the next one starts,
or nothing where the loop ends. -/
def readRecord (build : Build) (raw : Bytes) (position : Nat) : Return (Option (Object × Nat)) := do
  if (← usizeAdd build position 4) > raw.length then
    return none
  let key_len := leNat (← slice raw position (← usizeAdd build position 4))
  let position ← usizeAdd build position 4
  if (← usizeAdd build (← usizeAdd build position key_len) 8) > raw.length then
    return none
  let some key := fromUtf8 (← slice raw position (← usizeAdd build position key_len))
    | return none
  let position ← usizeAdd build position key_len
  let body_len := leNat (← slice raw position (← usizeAdd build position 8))
  let position ← usizeAdd build position 8
  if (← usizeAdd build position body_len) > raw.length then
    return none
  let body ← slice raw position (← usizeAdd build position body_len)
  let position ← usizeAdd build position body_len
  return some ((key, body), position)

theorem readRecord_advances {build : Build} {raw : Bytes} {position next : Nat} {object : Object}
    (read : readRecord build raw position = .ok (some (object, next))) :
    position < next ∧ next ≤ raw.length := by
  unfold readRecord at read
  obtain ⟨fieldEnd, added, read⟩ := Return.bind_eq_ok.mp read
  split at read
  · cases read
  rw [added, Return.ok_bind] at read
  obtain ⟨field, keyField, read⟩ := Return.bind_eq_ok.mp read
  rw [Return.ok_bind] at read
  obtain ⟨keyStop, keyAdded, read⟩ := Return.bind_eq_ok.mp read
  obtain ⟨headerEnd, headerAdded, read⟩ := Return.bind_eq_ok.mp read
  split at read
  · cases read
  rw [keyAdded, Return.ok_bind] at read
  obtain ⟨key, keyTaken, read⟩ := Return.bind_eq_ok.mp read
  split at read
  · rw [Return.ok_bind, headerAdded, Return.ok_bind] at read
    obtain ⟨lengthField, lengthTaken, read⟩ := Return.bind_eq_ok.mp read
    rw [Return.ok_bind] at read
    obtain ⟨stop, stopAdded, read⟩ := Return.bind_eq_ok.mp read
    split at read
    · cases read
    rw [stopAdded, Return.ok_bind] at read
    obtain ⟨body, bodyTaken, read⟩ := Return.bind_eq_ok.mp read
    cases read
    have fieldRange := slice_ok keyField
    have keyRange := slice_ok keyTaken
    have lengthRange := slice_ok lengthTaken
    have bodyRange := slice_ok bodyTaken
    have advanced := usizeAdd_gt added (by omega) (by omega) fieldRange.1
    omega
  · cases read

/-- The loop of `decode` from a position on, behind the objects already read. -/
def decodeLoop (build : Build) (raw : Bytes) (position : Nat) (objects : List Object) :
    Return (List Object) :=
  match _read : readRecord build raw position with
  | .ok (some (object, next)) => decodeLoop build raw next (objects ++ [object])
  | .ok none => .ok objects
  | .err message => .err message
  | .panicked => .panicked
termination_by raw.length - position
decreasing_by
  have advances := readRecord_advances _read
  omega

/-- `pack::decode`. -/
def decode (build : Build) (raw : Bytes) : Return (List Object) :=
  if raw.length < MAGIC.length ∨ raw.take MAGIC.length ≠ MAGIC then .err "not a cicache pack"
  else decodeLoop build raw MAGIC.length []

/-! ### The fields of a record -/

/-- The key length of the record at a position. -/
def keyLength (raw : Bytes) (position : Nat) : Nat :=
  leNat ((raw.take (position + 4)).drop position)

/-- The key of the record at a position, not yet decoded. -/
def keyBytes (raw : Bytes) (position : Nat) : Bytes :=
  (raw.take (position + 4 + keyLength raw position)).drop (position + 4)

/-- Where the body of the record at a position starts. -/
def bodyStart (raw : Bytes) (position : Nat) : Nat := position + 4 + keyLength raw position + 8

/-- The body length of the record at a position. -/
def bodyLength (raw : Bytes) (position : Nat) : Nat :=
  leNat ((raw.take (bodyStart raw position)).drop (position + 4 + keyLength raw position))

/-- Where the record at a position ends, as an unbounded number. -/
def recordEnd (raw : Bytes) (position : Nat) : Nat :=
  bodyStart raw position + bodyLength raw position

/-- The record at a position has its two lengths and its key inside the buffer, and the key is
text. -/
structure HeaderAt (raw : Bytes) (position : Nat) (key : String) : Prop where
  inside : bodyStart raw position ≤ raw.length
  text : fromUtf8 (keyBytes raw position) = some key

/-- The body of the record at a position. -/
def body (raw : Bytes) (position : Nat) : Bytes :=
  (raw.take (recordEnd raw position)).drop (bodyStart raw position)

theorem keyLength_lt (raw : Bytes) (position : Nat) : keyLength raw position < 2 ^ 32 := by
  have bound := leNat_lt ((raw.take (position + 4)).drop position)
  have length : ((raw.take (position + 4)).drop position).length ≤ 4 := by
    rw [List.length_drop, List.length_take]
    omega
  calc keyLength raw position < 256 ^ ((raw.take (position + 4)).drop position).length := bound
    _ ≤ 256 ^ 4 := Nat.pow_le_pow_right (by omega) length
    _ = 2 ^ 32 := by decide

theorem bodyLength_lt (raw : Bytes) (position : Nat) : bodyLength raw position < 2 ^ 64 := by
  have bound := leNat_lt
    ((raw.take (bodyStart raw position)).drop (position + 4 + keyLength raw position))
  have length :
      ((raw.take (bodyStart raw position)).drop (position + 4 + keyLength raw position)).length
        ≤ 8 := by
    rw [List.length_drop, List.length_take, bodyStart]
    omega
  calc bodyLength raw position < _ := bound
    _ ≤ 256 ^ 8 := Nat.pow_le_pow_right (by omega) length
    _ = 2 ^ 64 := by decide

section

variable {build : Build} {raw : Bytes} {position : Nat}

/-- One round of the loop, with its additions and slices resolved: only the end of the body
remains to be computed. -/
theorem readRecord_eq (small : raw.length < 2 ^ 63) (inside : position ≤ raw.length) :
    readRecord build raw position =
      if bodyStart raw position ≤ raw.length then
        match fromUtf8 (keyBytes raw position) with
        | none => .ok none
        | some key => do
            let stop ← usizeAdd build (bodyStart raw position) (bodyLength raw position)
            if stop > raw.length then
              return none
            let body ← slice raw (bodyStart raw position) stop
            return some ((key, body), stop)
      else .ok none := by
  have keySmall := keyLength_lt raw position
  have start : bodyStart raw position = position + 4 + keyLength raw position + 8 := rfl
  have keyField : leNat ((raw.take (position + 4)).drop position) = keyLength raw position := rfl
  have bodyField : leNat ((raw.take (bodyStart raw position)).drop
      (position + 4 + keyLength raw position)) = bodyLength raw position := rfl
  have keyPart : (raw.take (position + 4 + keyLength raw position)).drop (position + 4) =
      keyBytes raw position := rfl
  unfold readRecord
  by_cases short : position + 4 > raw.length
  · rw [if_neg (by omega)]
    simp (disch := omega) only [usizeAdd_of_lt, Return.ok_bind, if_pos short]
    rfl
  · simp (disch := omega) only [usizeAdd_of_lt, Return.ok_bind, if_neg short, slice_of_le, keyField,
      ← start, Return.pure_eq_ok]
    by_cases noHeader : bodyStart raw position > raw.length
    · rw [if_pos noHeader, if_neg (by omega)]
    · rw [if_neg noHeader, if_pos (by omega)]
      simp (disch := omega) only [slice_of_le, Return.ok_bind, keyPart, bodyField]
      cases fromUtf8 (keyBytes raw position) with
      | none => rfl
      | some key =>
        simp only []
        cases usizeAdd build (bodyStart raw position) (bodyLength raw position) <;> rfl

/-- A round that finds no header, or no whole body behind it, ends the loop. -/
theorem readRecord_of_not_headerAt (small : raw.length < 2 ^ 63) (inside : position ≤ raw.length)
    (none : ∀ key, ¬ HeaderAt raw position key) :
    readRecord build raw position = .ok Option.none := by
  rw [readRecord_eq small inside]
  split
  · rename_i header
    cases text : fromUtf8 (keyBytes raw position) with
    | none => rfl
    | some key => exact absurd ⟨header, text⟩ (none key)
  · rfl

/-- A round that finds a header reads the object behind it when the body ends inside the buffer,
ends the loop when it does not, and panics when its end is no 64-bit position. -/
theorem readRecord_of_headerAt {key : String} (small : raw.length < 2 ^ 63)
    (header : HeaderAt raw position key) :
    readRecord build raw position =
      if 2 ^ 64 ≤ recordEnd raw position then .panicked
      else if recordEnd raw position ≤ raw.length then
        .ok (some ((key, body raw position), recordEnd raw position))
      else .ok none := by
  have within := header.inside
  have start : bodyStart raw position = position + 4 + keyLength raw position + 8 := rfl
  have stop : recordEnd raw position = bodyStart raw position + bodyLength raw position := rfl
  have bodySmall := bodyLength_lt raw position
  rw [readRecord_eq small (by omega), if_pos within, header.text]
  by_cases wraps : 2 ^ 64 ≤ recordEnd raw position
  · rw [if_pos wraps]
    cases build with
    | debug =>
      simp only [usizeAdd]
      rw [if_neg (by omega)]
      rfl
    | release =>
      -- The sum wraps to a position before the body, so the test passes and the slice panics.
      have wrapped : (bodyStart raw position + bodyLength raw position) % 2 ^ 64 <
          bodyStart raw position := by omega
      simp only [usizeAdd, Return.ok_bind]
      rw [if_neg (by omega), slice, if_neg (by omega)]
      rfl
  · rw [if_neg wraps]
    simp (disch := omega) only [usizeAdd_of_lt, Return.ok_bind, ← stop]
    by_cases fits : recordEnd raw position ≤ raw.length
    · rw [if_neg (by omega), if_pos fits, slice_of_le (by omega) fits]
      rfl
    · rw [if_pos (by omega), if_neg fits]
      rfl

end

/-! ### When reading a pack panics -/

theorem decodeLoop_eq (build : Build) (raw : Bytes) (position : Nat) (objects : List Object) :
    decodeLoop build raw position objects =
      match readRecord build raw position with
      | .ok (some (object, next)) => decodeLoop build raw next (objects ++ [object])
      | .ok none => .ok objects
      | .err message => .err message
      | .panicked => .panicked := by
  rw [decodeLoop]
  split <;> rename_i read <;> rw [read]

/-- A whole record at one position and the position behind it. -/
def NextRecord (raw : Bytes) (position next : Nat) : Prop :=
  (∃ key, HeaderAt raw position key) ∧ recordEnd raw position ≤ raw.length ∧
    next = recordEnd raw position

/-- The positions at which the decoder comes to look for a record: behind the magic number and
behind each whole record found there. -/
def RecordStart (raw : Bytes) (position : Nat) : Prop :=
  Relation.ReflTransGen (NextRecord raw) MAGIC.length position

/-- A record the decoder comes to has a body length that carries its position past `usize`. -/
def Overflows (raw : Bytes) : Prop :=
  raw.take MAGIC.length = MAGIC ∧
    ∃ position key, RecordStart raw position ∧ HeaderAt raw position key ∧
      2 ^ 64 ≤ recordEnd raw position

theorem NextRecord.unique {raw : Bytes} {position first second : Nat}
    (one : NextRecord raw position first) (other : NextRecord raw position second) :
    first = second := by
  rw [one.2.2, other.2.2]

/-- From a position on, the loop panics exactly when it comes to a record whose end overflows. -/
theorem decodeLoop_panicked_iff {build : Build} {raw : Bytes} {position : Nat}
    (objects : List Object) (small : raw.length < 2 ^ 63) (inside : position ≤ raw.length) :
    decodeLoop build raw position objects = .panicked ↔
      ∃ later key, Relation.ReflTransGen (NextRecord raw) position later ∧
        HeaderAt raw later key ∧ 2 ^ 64 ≤ recordEnd raw later := by
  induction distance : raw.length - position using Nat.strong_induction_on
    generalizing position objects with
  | _ distance inductionHypothesis =>
    rw [decodeLoop_eq]
    by_cases found : ∃ key, HeaderAt raw position key
    · obtain ⟨key, header⟩ := found
      have start : position < recordEnd raw position := by
        rw [recordEnd, bodyStart]
        omega
      rw [readRecord_of_headerAt small header]
      by_cases wraps : 2 ^ 64 ≤ recordEnd raw position
      · rw [if_pos wraps]
        exact iff_of_true rfl ⟨position, key, .refl, header, wraps⟩
      · rw [if_neg wraps]
        by_cases fits : recordEnd raw position ≤ raw.length
        · rw [if_pos fits]
          have next : NextRecord raw position (recordEnd raw position) := ⟨⟨key, header⟩, fits, rfl⟩
          refine (inductionHypothesis _ (by omega) _ fits rfl).trans ?_
          constructor
          · rintro ⟨later, other, path, rest⟩
            exact ⟨later, other, .head next path, rest⟩
          · rintro ⟨later, other, path, overflowing, large⟩
            rcases Relation.ReflTransGen.cases_head path with rfl | ⟨middle, step, tail⟩
            · exact absurd large wraps
            · exact ⟨later, other, next.unique step ▸ tail, overflowing, large⟩
        · rw [if_neg fits]
          refine iff_of_false (by simp) ?_
          rintro ⟨later, other, path, overflowing, large⟩
          rcases Relation.ReflTransGen.cases_head path with rfl | ⟨middle, step, tail⟩
          · exact wraps large
          · exact fits step.2.1
    · rw [readRecord_of_not_headerAt small inside fun key header => found ⟨key, header⟩]
      refine iff_of_false (by simp) ?_
      rintro ⟨later, other, path, overflowing, large⟩
      rcases Relation.ReflTransGen.cases_head path with rfl | ⟨middle, step, tail⟩
      · exact found ⟨other, overflowing⟩
      · exact found step.1

/-- Reading a byte string as a pack returns `Ok` or `Err`, in either build, exactly when no
record the decoder comes to has a body length that overflows. A debug build that returns has
wrapped no addition and taken every slice in range; a release build that returns has taken
every slice in range. The bound is the size limit of a buffer on a 64-bit target. -/
theorem decode_returns_iff (build : Build) (raw : Bytes) (small : raw.length < 2 ^ 63) :
    decode build raw ≠ .panicked ↔ ¬ Overflows raw := by
  refine not_congr ?_
  rw [decode, Overflows]
  by_cases foreign : raw.length < MAGIC.length ∨ raw.take MAGIC.length ≠ MAGIC
  · rw [if_pos foreign]
    refine iff_of_false (by simp) fun overflows => ?_
    rcases foreign with short | other
    · have length := congrArg List.length overflows.1
      rw [List.length_take] at length
      omega
    · exact other overflows.1
  · rw [not_or, not_lt, not_not] at foreign
    rw [if_neg (by simp [foreign.1, foreign.2]), decodeLoop_panicked_iff [] small foreign.1]
    exact (and_iff_right foreign.2).symm

/-- A pack of one record whose body length is the largest 64-bit number. -/
def overflowingPack : Bytes := MAGIC ++ leBytes 4 1 ++ utf8 "a" ++ leBytes 8 (2 ^ 64 - 1)

theorem readRecord_overflowingPack (build : Build) :
    readRecord build overflowingPack 4 = .panicked := by
  cases build <;> decide

theorem decode_overflowingPack (build : Build) : decode build overflowingPack = .panicked := by
  rw [decode, if_neg (by decide), length_MAGIC, decodeLoop_eq, readRecord_overflowingPack]

/-- The seventeen bytes of `overflowingPack` stop the process in either build. -/
theorem decode_panics :
    overflowingPack.length = 17 ∧ decode .release overflowingPack = .panicked ∧
      decode .debug overflowingPack = .panicked :=
  ⟨by decide, decode_overflowingPack .release, decode_overflowingPack .debug⟩

/-- At that pack the decoder does come to a record that overflows. -/
theorem overflows_overflowingPack : Overflows overflowingPack := by
  by_contra returns
  exact (decode_returns_iff .release overflowingPack (by decide)).mpr returns
    (decode_overflowingPack .release)

/-! ### What was written reads back -/

/-- The objects `encode` keeps, given how many bytes are written before them. -/
def keep (max_bytes : Nat) : Nat → List Object → List Object
  | _, [] => []
  | used, object :: rest =>
      if used + (4 + (utf8 object.1).length + 8 + object.2.length) > max_bytes then
        keep max_bytes used rest
      else
        object :: keep max_bytes (used + (4 + (utf8 object.1).length + 8 + object.2.length)) rest

theorem length_record (object : Object) :
    (record object).length = 4 + (utf8 object.1).length + 8 + object.2.length := by
  simp only [record, List.length_append, length_leBytes]

theorem encodeLoop_eq (max_bytes : Nat) (out : Bytes) (objects : List Object) :
    encodeLoop max_bytes out objects =
      out ++ (keep max_bytes out.length objects).flatMap record := by
  induction objects generalizing out with
  | nil => exact (List.append_nil out).symm
  | cons object rest inductionHypothesis =>
    rw [encodeLoop, keep]
    split
    · exact inductionHypothesis out
    · rw [inductionHypothesis, List.length_append, length_record, List.flatMap_cons,
        List.append_assoc]

theorem keep_sublist (max_bytes used : Nat) (objects : List Object) :
    (keep max_bytes used objects).Sublist objects := by
  induction objects generalizing used with
  | nil => exact List.Sublist.slnil
  | cons object rest inductionHypothesis =>
    rw [keep]
    split
    · exact (inductionHypothesis used).cons object
    · exact (inductionHypothesis _).cons_cons object

/-- Nothing is left out while the records fit. -/
theorem keep_of_fits {max_bytes used : Nat} {objects : List Object}
    (fits : used + (objects.flatMap record).length ≤ max_bytes) :
    keep max_bytes used objects = objects := by
  induction objects generalizing used with
  | nil => rfl
  | cons object rest inductionHypothesis =>
    rw [List.flatMap_cons, List.length_append, length_record] at fits
    rw [keep, if_neg (by omega), inductionHypothesis (by omega)]

/-- The parts of a buffer that holds a record behind other bytes. -/
theorem record_parts (front rest : Bytes) {object : Object}
    (keySmall : (utf8 object.1).length < 2 ^ 32) (bodySmall : object.2.length < 2 ^ 64) :
    let raw := front ++ (record object ++ rest)
    keyLength raw front.length = (utf8 object.1).length ∧
      keyBytes raw front.length = utf8 object.1 ∧
      recordEnd raw front.length = (front ++ record object).length ∧
      body raw front.length = object.2 := by
  intro raw
  have part : ∀ (before middle after : Bytes), raw = before ++ (middle ++ after) →
      (raw.take (before.length + middle.length)).drop before.length = middle := by
    intro before middle after shape
    rw [shape, List.take_length_add_append, List.take_left, List.drop_left]
  have keyField := part front (leBytes 4 (utf8 object.1).length)
    (utf8 object.1 ++ leBytes 8 object.2.length ++ object.2 ++ rest)
    (by simp only [raw, record, List.append_assoc])
  have keyPart := part (front ++ leBytes 4 (utf8 object.1).length) (utf8 object.1)
    (leBytes 8 object.2.length ++ object.2 ++ rest)
    (by simp only [raw, record, List.append_assoc])
  have bodyField := part (front ++ leBytes 4 (utf8 object.1).length ++ utf8 object.1)
    (leBytes 8 object.2.length) (object.2 ++ rest)
    (by simp only [raw, record, List.append_assoc])
  have bodyPart := part (front ++ leBytes 4 (utf8 object.1).length ++ utf8 object.1 ++
    leBytes 8 object.2.length) object.2 rest
    (by simp only [raw, record, List.append_assoc])
  simp only [List.length_append, length_leBytes] at keyField keyPart bodyField bodyPart
  have keyLengthIs : keyLength raw front.length = (utf8 object.1).length := by
    unfold keyLength
    rw [keyField, leNat_leBytes_of_lt keySmall]
  have bodyLengthIs : bodyLength raw front.length = object.2.length := by
    unfold bodyLength bodyStart
    rw [keyLengthIs, bodyField, leNat_leBytes_of_lt bodySmall]
  have stop : recordEnd raw front.length = (front ++ record object).length := by
    unfold recordEnd bodyStart
    rw [keyLengthIs, bodyLengthIs, List.length_append, length_record]
    omega
  refine ⟨keyLengthIs, ?_, stop, ?_⟩
  · unfold keyBytes
    rw [keyLengthIs, keyPart]
  · unfold body recordEnd bodyStart
    rw [keyLengthIs, bodyLengthIs, bodyPart]

/-- A record is read back where it was written. -/
theorem readRecord_record (build : Build) (front rest : Bytes) {object : Object}
    (keySmall : (utf8 object.1).length < 2 ^ 32)
    (small : (front ++ (record object ++ rest)).length < 2 ^ 63) :
    readRecord build (front ++ (record object ++ rest)) front.length =
      .ok (some (object, (front ++ record object).length)) := by
  have bodySmall : object.2.length < 2 ^ 64 := by
    simp only [List.length_append, length_record] at small
    omega
  obtain ⟨keyLengthIs, keyBytesAre, stop, bodyIs⟩ := record_parts front rest keySmall bodySmall
  have inside : (front ++ record object).length ≤ (front ++ (record object ++ rest)).length := by
    rw [← List.append_assoc]
    exact (List.prefix_append (front ++ record object) rest).length_le
  have header : HeaderAt (front ++ (record object ++ rest)) front.length object.1 := by
    refine ⟨?_, ?_⟩
    · rw [recordEnd] at stop
      omega
    · rw [keyBytesAre, fromUtf8_utf8]
  rw [readRecord_of_headerAt small header, stop, bodyIs, if_neg (by omega), if_pos inside]

theorem decodeLoop_records (build : Build) (front : Bytes) (read objects : List Object)
    (keysSmall : ∀ object ∈ objects, (utf8 object.1).length < 2 ^ 32)
    (small : (front ++ objects.flatMap record).length < 2 ^ 63) :
    decodeLoop build (front ++ objects.flatMap record) front.length read =
      .ok (read ++ objects) := by
  induction objects generalizing front read with
  | nil =>
    have none : ∀ key, ¬ HeaderAt (front ++ []) front.length key := by
      intro key header
      have inside := header.inside
      rw [List.append_nil, bodyStart] at inside
      omega
    rw [List.flatMap_nil] at small
    rw [decodeLoop_eq, List.flatMap_nil, readRecord_of_not_headerAt small (by simp) none,
      List.append_nil read]
  | cons object rest inductionHypothesis =>
    rw [List.flatMap_cons] at small ⊢
    have keySmall := keysSmall object List.mem_cons_self
    rw [decodeLoop_eq, readRecord_record build front _ keySmall small]
    have later := inductionHypothesis (front ++ record object) (read ++ [object])
      (fun other member => keysSmall other (List.mem_cons_of_mem _ member))
      (by rw [List.append_assoc]; exact small)
    rw [List.append_assoc front, List.append_assoc read, List.singleton_append] at later
    exact later

/-- Reading back a pack gives the objects it kept. -/
theorem decode_encode (build : Build) (objects : List Object) (max_bytes : Nat)
    (keysSmall : ∀ object ∈ objects, (utf8 object.1).length < 2 ^ 32)
    (small : (encode objects max_bytes).length < 2 ^ 63) :
    decode build (encode objects max_bytes) = .ok (keep max_bytes MAGIC.length objects) := by
  rw [encode, encodeLoop_eq] at small ⊢
  rw [decode, if_neg]
  · refine decodeLoop_records build MAGIC [] _ (fun object member => ?_) small
    exact keysSmall object ((keep_sublist _ _ _).subset member)
  · rw [not_or, not_lt, not_not, List.length_append]
    exact ⟨Nat.le_add_right _ _, List.take_left⟩

/-- What is kept stays within the limit. -/
theorem length_keep_le (max_bytes used : Nat) (objects : List Object) :
    used + ((keep max_bytes used objects).flatMap record).length ≤ max used max_bytes := by
  induction objects generalizing used with
  | nil => exact le_max_left _ _
  | cons object rest inductionHypothesis =>
    rw [keep]
    split
    · exact inductionHypothesis used
    · rename_i within
      have later := inductionHypothesis
        (used + (4 + (utf8 object.1).length + 8 + object.2.length))
      rw [List.flatMap_cons, List.length_append, length_record]
      omega

/-- A pack is read back as exactly the objects that the greedy rule keeps, in order; its length is
within the limit, and nothing is left out when everything fits. The bound on the encoding is the
size limit of a buffer on a 64-bit target. -/
theorem decode_encode_keep (build : Build) (objects : List Object) (max_bytes : Nat)
    (keysSmall : ∀ object ∈ objects, (utf8 object.1).length < 2 ^ 32)
    (small : (encode objects max_bytes).length < 2 ^ 63) :
    decode build (encode objects max_bytes) = .ok (keep max_bytes MAGIC.length objects) ∧
      (encode objects max_bytes).length ≤ max 4 max_bytes ∧
      (MAGIC.length + (objects.flatMap record).length ≤ max_bytes →
        keep max_bytes MAGIC.length objects = objects) := by
  refine ⟨decode_encode build objects max_bytes keysSmall small, ?_, keep_of_fits⟩
  rw [encode, encodeLoop_eq, List.length_append]
  exact length_MAGIC ▸ length_keep_le max_bytes MAGIC.length objects

/-- The first object fits exactly, the second does not, and the third, which is empty, would only
fit without the first. -/
theorem decode_encode_keep_example :
    decode .release (encode [("a", utf8 "x"), ("b", utf8 "yy"), ("", [])] 18) =
      .ok [("a", utf8 "x")] :=
  (decode_encode_keep .release [("a", utf8 "x"), ("b", utf8 "yy"), ("", [])] 18 (by decide)
    (by decide)).1

/-! ### What a pack consists of -/

/-- The buffer is a pack of these objects, whose lengths fit their fields. -/
def IsPack (body : Bytes) (objects : List Object) : Prop :=
  (∀ object ∈ objects, (utf8 object.1).length < 2 ^ 32 ∧ object.2.length < 2 ^ 64) ∧
    body = MAGIC ++ objects.flatMap record

theorem isPack_encode {objects : List Object} (max_bytes : Nat)
    (small : ∀ object ∈ objects, (utf8 object.1).length < 2 ^ 32 ∧ object.2.length < 2 ^ 64) :
    IsPack (encode objects max_bytes) (keep max_bytes MAGIC.length objects) := by
  refine ⟨fun object member => small object ((keep_sublist _ _ _).subset member), ?_⟩
  rw [encode, encodeLoop_eq]

/-- Records can be told apart. -/
theorem record_append_inj {first second : Object} {rest other : Bytes}
    (small : (utf8 first.1).length < 2 ^ 32 ∧ first.2.length < 2 ^ 64)
    (alsoSmall : (utf8 second.1).length < 2 ^ 32 ∧ second.2.length < 2 ^ 64)
    (same : record first ++ rest = record second ++ other) : first = second ∧ rest = other := by
  obtain ⟨-, key, -, body⟩ := record_parts [] rest small.1 small.2
  obtain ⟨-, key', -, body'⟩ := record_parts [] other alsoSmall.1 alsoSmall.2
  rw [List.nil_append, same] at key body
  have equal : first = second :=
    Prod.ext (utf8_injective (key.symm.trans key')) (body.symm.trans body')
  rw [equal] at same
  exact ⟨equal, List.append_cancel_left same⟩

/-- A buffer is the pack of at most one list of objects. -/
theorem IsPack.unique {body : Bytes} {objects others : List Object} (isPack : IsPack body objects)
    (also : IsPack body others) : objects = others := by
  have same : objects.flatMap record = others.flatMap record :=
    List.append_cancel_left (isPack.2.symm.trans also.2)
  obtain ⟨small, -⟩ := isPack
  obtain ⟨alsoSmall, -⟩ := also
  have nonempty : ∀ object : Object, record object ≠ [] := by
    intro object none
    have length := length_record object
    rw [none, List.length_nil] at length
    omega
  induction objects generalizing others with
  | nil =>
    cases others with
    | nil => rfl
    | cons other rest =>
      rw [List.flatMap_nil, List.flatMap_cons] at same
      exact absurd (List.append_eq_nil_iff.mp same.symm).1 (nonempty other)
  | cons object rest inductionHypothesis =>
    cases others with
    | nil =>
      rw [List.flatMap_nil, List.flatMap_cons] at same
      exact absurd (List.append_eq_nil_iff.mp same).1 (nonempty object)
    | cons other more =>
      rw [List.flatMap_cons, List.flatMap_cons] at same
      obtain ⟨rfl, later⟩ := record_append_inj (small _ List.mem_cons_self)
        (alsoSmall _ List.mem_cons_self) same
      rw [inductionHypothesis later (fun next member => small next (List.mem_cons_of_mem _ member))
        fun next member => alsoSmall next (List.mem_cons_of_mem _ member)]

/-- Nothing is left out exactly when everything fits. -/
theorem length_keep_eq_iff {max_bytes used : Nat} {objects : List Object} (some : objects ≠ []) :
    (keep max_bytes used objects).length = objects.length ↔
      used + (objects.flatMap record).length ≤ max_bytes := by
  constructor
  · intro same
    have whole := (keep_sublist max_bytes used objects).eq_of_length same
    have bound := length_keep_le max_bytes used objects
    rw [whole] at bound
    obtain ⟨object, rest, rfl⟩ := List.exists_cons_of_ne_nil some
    rw [List.flatMap_cons, List.length_append, length_record] at bound ⊢
    omega
  · exact fun fits => congrArg List.length (keep_of_fits fits)

end Pack

end Cicache
