/-
This file settles what a pack that was cut short is worth. Reading a byte string that decodes
takes it apart into the magic number, the records of the objects and a rest in which no whole
record begins. Writing the objects again therefore gives a beginning of the same bytes, and a cut
anywhere leaves exactly the records that end before it.
-/

import Cicache.Pack

namespace Cicache

open Text

namespace Pack

/-! ### Reading as a trace -/

/-- The objects the decoder reads from a position on. -/
inductive Scans (build : Build) (raw : Bytes) : Nat → List Object → Prop where
  | stop {position} (none : readRecord build raw position = .ok none) : Scans build raw position []
  | object {position next object objects}
      (read : readRecord build raw position = .ok (some (object, next)))
      (rest : Scans build raw next objects) : Scans build raw position (object :: objects)

variable {build : Build} {raw : Bytes} {position count : Nat}

theorem Scans.decodeLoop {objects : List Object} (scans : Scans build raw position objects)
    (before : List Object) : decodeLoop build raw position before = .ok (before ++ objects) := by
  induction scans generalizing before with
  | stop none => rw [decodeLoop_eq, none, List.append_nil]
  | object read _ inductionHypothesis =>
    rw [decodeLoop_eq, read]
    change Pack.decodeLoop build raw _ _ = _
    rw [inductionHypothesis, List.append_assoc, List.singleton_append]

theorem scans_of_decodeLoop {before all : List Object}
    (decoded : decodeLoop build raw position before = .ok all) :
    ∃ objects, all = before ++ objects ∧ Scans build raw position objects := by
  induction distance : raw.length - position using Nat.strong_induction_on
    generalizing position before with
  | _ distance inductionHypothesis =>
    rw [decodeLoop_eq] at decoded
    cases read : readRecord build raw position with
    | err message => simp [read] at decoded
    | panicked => simp [read] at decoded
    | ok found =>
      rw [read] at decoded
      cases found with
      | none =>
        cases decoded
        exact ⟨[], (List.append_nil _).symm, .stop read⟩
      | some pair =>
        obtain ⟨object, next⟩ := pair
        have advances := readRecord_advances read
        obtain ⟨objects, rfl, rest⟩ := inductionHypothesis _ (by omega) decoded rfl
        exact ⟨object :: objects, by rw [List.append_assoc, List.singleton_append],
          .object read rest⟩

/-- A record that is read lies whole in the buffer. -/
theorem readRecord_some {object : Object} {next : Nat} (small : raw.length < 2 ^ 63)
    (inside : position ≤ raw.length)
    (read : readRecord build raw position = .ok (some (object, next))) :
    HeaderAt raw position object.1 ∧ next = recordEnd raw position ∧ next ≤ raw.length ∧
      object.2 = body raw position := by
  by_cases found : ∃ key, HeaderAt raw position key
  · obtain ⟨key, header⟩ := found
    rw [readRecord_of_headerAt small header] at read
    split at read
    · cases read
    · split at read
      · rename_i fits
        cases read
        exact ⟨header, rfl, fits, rfl⟩
      · cases read
  · rw [readRecord_of_not_headerAt small inside fun key header => found ⟨key, header⟩] at read
    cases read

/-! ### Writing again what was read -/

/-- A part of a buffer falls into two at a position between its ends. -/
theorem part_append (position middle stop : Nat) (first : position ≤ middle)
    (second : middle ≤ stop) (inside : stop ≤ raw.length) :
    (raw.take stop).drop position =
      (raw.take middle).drop position ++ (raw.take stop).drop middle := by
  have whole : raw.take stop = raw.take middle ++ (raw.take stop).drop middle := by
    conv_lhs => rw [← List.take_append_drop middle (raw.take stop)]
    rw [List.take_take, Nat.min_eq_left second]
  conv_lhs => rw [whole]
  rw [List.drop_append_of_le_length]
  rw [List.length_take]
  omega

theorem length_part {stop : Nat} (inside : stop ≤ raw.length) :
    ((raw.take stop).drop position).length = stop - position := by
  rw [List.length_drop, List.length_take, Nat.min_eq_left inside]

/-- A record that is read is the bytes that writing its object gives. -/
theorem record_of_readRecord {object : Object} {next : Nat} (small : raw.length < 2 ^ 63)
    (inside : position ≤ raw.length)
    (read : readRecord build raw position = .ok (some (object, next))) :
    (raw.take next).drop position = record object ∧
      next = position + (record object).length := by
  obtain ⟨header, rfl, fits, bodyIs⟩ := readRecord_some small inside read
  have start : bodyStart raw position = position + 4 + keyLength raw position + 8 := rfl
  have stop : recordEnd raw position = bodyStart raw position + bodyLength raw position := rfl
  have within := header.inside
  have keyIs : utf8 object.1 = keyBytes raw position := utf8_of_fromUtf8 header.text
  have keyLengthIs : (utf8 object.1).length = keyLength raw position := by
    rw [keyIs, keyBytes, length_part (by omega)]
    omega
  have bodyLengthIs : object.2.length = bodyLength raw position := by
    rw [bodyIs, body, length_part fits]
    omega
  have keyField : leBytes 4 (utf8 object.1).length = (raw.take (position + 4)).drop position := by
    have length : ((raw.take (position + 4)).drop position).length = 4 := by
      rw [length_part (by omega)]
      omega
    rw [keyLengthIs, keyLength]
    conv_rhs => rw [← leBytes_leNat ((raw.take (position + 4)).drop position), length]
  have bodyField : leBytes 8 object.2.length =
      (raw.take (bodyStart raw position)).drop (position + 4 + keyLength raw position) := by
    have length : ((raw.take (bodyStart raw position)).drop
        (position + 4 + keyLength raw position)).length = 8 := by
      rw [length_part within]
      omega
    rw [bodyLengthIs, bodyLength]
    conv_rhs => rw [← leBytes_leNat ((raw.take (bodyStart raw position)).drop
      (position + 4 + keyLength raw position)), length]
  refine ⟨?_, ?_⟩
  · rw [record, keyField, bodyField, bodyIs, keyIs, body, keyBytes]
    rw [part_append position (bodyStart raw position) _ (by omega) (by omega) fits,
      part_append position (position + 4 + keyLength raw position) (bodyStart raw position)
        (by omega) (by omega) (by omega),
      part_append position (position + 4) (position + 4 + keyLength raw position)
        (by omega) (by omega) (by omega)]
  · rw [length_record, keyLengthIs, bodyLengthIs]
    omega

/-- What is read from a position on lies there, record after record. -/
theorem Scans.records {objects : List Object} (small : raw.length < 2 ^ 63)
    (scans : Scans build raw position objects) (inside : position ≤ raw.length) :
    raw.take position ++ objects.flatMap record <+: raw := by
  induction scans with
  | stop none => simpa using List.take_prefix _ raw
  | @object position next object objects read rest inductionHypothesis =>
    obtain ⟨bytes, _⟩ := record_of_readRecord small inside read
    have advances := readRecord_advances read
    have front : raw.take position ++ record object = raw.take next := by
      rw [← bytes]
      conv_rhs => rw [← List.take_append_drop position (raw.take next), List.take_take,
        Nat.min_eq_left (by omega)]
    rw [List.flatMap_cons, ← List.append_assoc, front]
    exact inductionHypothesis advances.2

/-! ### Reading what is left after a cut -/

theorem part_take {stop : Nat} (inside : stop ≤ count) :
    ((raw.take count).take stop).drop position = (raw.take stop).drop position := by
  rw [List.take_take, Nat.min_eq_left inside]

/-- A cut behind a header leaves the header and its lengths. -/
theorem headerAt_take {key : String} (header : HeaderAt raw position key)
    (inside : bodyStart raw position ≤ count) :
    HeaderAt (raw.take count) position key ∧
      bodyStart (raw.take count) position = bodyStart raw position ∧
      recordEnd (raw.take count) position = recordEnd raw position := by
  have start : bodyStart raw position = position + 4 + keyLength raw position + 8 := rfl
  have within := header.inside
  have keyLengthIs : keyLength (raw.take count) position = keyLength raw position := by
    rw [keyLength, part_take (by omega), keyLength]
  have startIs : bodyStart (raw.take count) position = bodyStart raw position := by
    rw [bodyStart, keyLengthIs, bodyStart]
  have keyBytesAre : keyBytes (raw.take count) position = keyBytes raw position := by
    rw [keyBytes, keyLengthIs, part_take (by omega), keyBytes]
  refine ⟨⟨?_, ?_⟩, startIs, ?_⟩
  · rw [startIs, List.length_take]
    omega
  · rw [keyBytesAre]
    exact header.text
  · rw [recordEnd, startIs, bodyLength, startIs, keyLengthIs, part_take inside, recordEnd,
      bodyLength]

/-- What is left after a cut has no header the whole did not have. -/
theorem headerAt_of_take {key : String} (header : HeaderAt (raw.take count) position key) :
    HeaderAt raw position key ∧ bodyStart raw position ≤ count := by
  have start : bodyStart (raw.take count) position =
      position + 4 + keyLength (raw.take count) position + 8 := rfl
  have within := header.inside
  rw [List.length_take] at within
  have keyLengthIs : keyLength (raw.take count) position = keyLength raw position := by
    rw [keyLength, part_take (by omega), keyLength]
  have startIs : bodyStart (raw.take count) position = bodyStart raw position := by
    rw [bodyStart, keyLengthIs, bodyStart]
  have keyBytesAre : keyBytes (raw.take count) position = keyBytes raw position := by
    rw [keyBytes, keyLengthIs, part_take (by omega), keyBytes]
  refine ⟨⟨by omega, ?_⟩, by omega⟩
  rw [← keyBytesAre]
  exact header.text

/-- Reading a record after a cut: the record that was there, when it ends before the cut. -/
theorem readRecord_take {object : Object} {next : Nat} (small : raw.length < 2 ^ 63)
    (inside : position ≤ count) (within : count ≤ raw.length)
    (read : readRecord build raw position = .ok (some (object, next))) :
    readRecord build (raw.take count) position =
      if next ≤ count then .ok (some (object, next)) else .ok none := by
  obtain ⟨header, rfl, fits, bodyIs⟩ := readRecord_some small (by omega) read
  have length : (raw.take count).length = count := by
    rw [List.length_take, Nat.min_eq_left within]
  have stop : recordEnd raw position = bodyStart raw position + bodyLength raw position := rfl
  by_cases cut : bodyStart raw position ≤ count
  · obtain ⟨header', startIs, stopIs⟩ := headerAt_take header cut
    rw [readRecord_of_headerAt (by omega) header', stopIs, if_neg (by omega), length]
    by_cases whole : recordEnd raw position ≤ count
    · rw [if_pos whole, if_pos whole, body, startIs, stopIs, part_take whole]
      obtain ⟨key, bytes⟩ := object
      exact congrArg (fun bytes' => Return.ok (some ((key, bytes'), _))) bodyIs.symm
    · rw [if_neg whole, if_neg whole]
  · rw [if_neg (by omega), readRecord_of_not_headerAt (by omega) (by omega)]
    exact fun key header' => cut (headerAt_of_take header').2

/-- Where no record is found, none is found after a cut. -/
theorem readRecord_take_none (small : raw.length < 2 ^ 63) (inside : position ≤ count)
    (within : count ≤ raw.length) (none : readRecord build raw position = .ok none) :
    readRecord build (raw.take count) position = .ok Option.none := by
  have length : (raw.take count).length = count := by
    rw [List.length_take, Nat.min_eq_left within]
  by_cases found : ∃ key, HeaderAt (raw.take count) position key
  · obtain ⟨key, header⟩ := found
    obtain ⟨whole, cut⟩ := headerAt_of_take header
    obtain ⟨_, _, stopIs⟩ := headerAt_take whole cut
    rw [readRecord_of_headerAt small whole] at none
    rw [readRecord_of_headerAt (by omega) header, stopIs, length]
    split at none
    · cases none
    · rename_i noOverflow
      rw [if_neg noOverflow]
      split at none
      · cases none
      · rw [if_neg (by omega)]
  · exact readRecord_of_not_headerAt (by omega) (by omega) fun key header => found ⟨key, header⟩

/-- The objects, read from a position on, whose records end within a number of bytes. -/
def intact (count : Nat) : Nat → List Object → List Object
  | _, [] => []
  | position, object :: rest =>
      if position + (record object).length ≤ count then
        object :: intact count (position + (record object).length) rest
      else []

theorem Scans.take {objects : List Object} (small : raw.length < 2 ^ 63)
    (scans : Scans build raw position objects) (inside : position ≤ count)
    (within : count ≤ raw.length) :
    Scans build (raw.take count) position (intact count position objects) := by
  induction scans with
  | stop none => exact .stop (readRecord_take_none small inside within none)
  | @object position next object objects read rest inductionHypothesis =>
    obtain ⟨_, rfl⟩ := record_of_readRecord small (by omega) read
    have cut := readRecord_take small inside within read
    rw [intact]
    by_cases whole : position + (record object).length ≤ count
    · rw [if_pos whole] at cut ⊢
      exact .object cut (inductionHypothesis whole)
    · rw [if_neg whole] at cut ⊢
      exact .stop cut

/-- When all that was read ends within the count, all of it is intact. -/
theorem intact_of_fits {objects : List Object}
    (fits : position + (objects.flatMap record).length ≤ count) :
    intact count position objects = objects := by
  induction objects generalizing position with
  | nil => rfl
  | cons object rest inductionHypothesis =>
    rw [List.flatMap_cons, List.length_append] at fits
    rw [intact, if_pos (by omega), inductionHypothesis (by omega)]

/-- The intact objects are the longest front whose records end within the count. -/
theorem intact_longest {objects : List Object} (inside : position ≤ count) :
    intact count position objects <+: objects ∧ ∀ front, front <+: objects →
      (front <+: intact count position objects ↔
        position + (front.flatMap record).length ≤ count) := by
  induction objects generalizing position with
  | nil =>
    refine ⟨List.prefix_rfl, fun front begins => ?_⟩
    obtain rfl := List.prefix_nil.mp begins
    exact iff_of_true List.prefix_rfl inside
  | cons object rest inductionHypothesis =>
    by_cases whole : position + (record object).length ≤ count
    · obtain ⟨begins, longest⟩ := inductionHypothesis whole
      rw [intact, if_pos whole]
      refine ⟨List.prefix_cons_inj object |>.mpr begins, fun front front' => ?_⟩
      cases front with
      | nil => exact iff_of_true (List.nil_prefix) inside
      | cons first others =>
        obtain ⟨rfl, others'⟩ := List.cons_prefix_cons.mp front'
        rw [List.prefix_cons_inj, longest others others', List.flatMap_cons, List.length_append,
          Nat.add_assoc]
    · rw [intact, if_neg whole]
      refine ⟨List.nil_prefix, fun front front' => ?_⟩
      cases front with
      | nil => exact iff_of_true List.prefix_rfl inside
      | cons first others =>
        obtain ⟨rfl, _⟩ := List.cons_prefix_cons.mp front'
        rw [List.flatMap_cons, List.length_append]
        refine iff_of_false (fun begins => ?_) (by omega)
        cases List.prefix_nil.mp begins

/-- What decodes starts with the magic number, and the objects are scanned behind it. -/
theorem scans_of_decode {objects : List Object} (decoded : decode build raw = .ok objects) :
    MAGIC.length ≤ raw.length ∧ raw.take MAGIC.length = MAGIC ∧
      Scans build raw MAGIC.length objects := by
  rw [decode] at decoded
  split at decoded
  · cases decoded
  · rename_i genuine
    rw [not_or, not_lt, not_not] at genuine
    obtain ⟨_, rfl, scans⟩ := scans_of_decodeLoop decoded
    exact ⟨genuine.1, genuine.2, scans⟩

/-- Reading what is left after a cut gives the intact objects. -/
theorem decode_take_eq {objects : List Object} (small : raw.length < 2 ^ 63)
    (decoded : decode build raw = .ok objects) (magic : MAGIC.length ≤ count) :
    decode build (raw.take count) = .ok (intact count MAGIC.length objects) := by
  obtain ⟨long, genuine, scans⟩ := scans_of_decode decoded
  by_cases within : count ≤ raw.length
  · rw [decode, if_neg, (scans.take small magic within).decodeLoop [], List.nil_append]
    rw [not_or, not_lt, not_not, List.take_take, Nat.min_eq_left magic, List.length_take]
    exact ⟨by omega, genuine⟩
  · have length := (scans.records small long).length_le
    rw [List.length_append, List.length_take, Nat.min_eq_left long] at length
    rw [List.take_of_length_le (by omega), decoded, intact_of_fits (by omega)]

/-- What decodes begins with the encoding of the objects it decodes to, and a cut anywhere leaves
the longest front of them whose records end at or before it. The bound on the bytes is the size
limit of a buffer on a 64-bit target. -/
theorem decode_take (build : Build) (raw : Bytes) (objects : List Object)
    (small : raw.length < 2 ^ 63) (decoded : decode build raw = .ok objects) :
    encode objects (2 ^ 64 - 1) <+: raw ∧ ∀ count,
      (count < 4 → ∃ message, decode build (raw.take count) = .err message) ∧
      (4 ≤ count → ∃ left, decode build (raw.take count) = .ok left ∧ left <+: objects ∧
        ∀ front, front <+: objects →
          (front <+: left ↔ 4 + (front.flatMap record).length ≤ count)) := by
  obtain ⟨long, magic, scans⟩ := scans_of_decode decoded
  have whole := scans.records small long
  rw [magic] at whole
  refine ⟨?_, fun count => ⟨fun short => ?_, fun enough => ?_⟩⟩
  · have length := whole.length_le
    rw [List.length_append] at length
    rw [encode, encodeLoop_eq, keep_of_fits (by omega)]
    exact whole
  · refine ⟨_, if_pos (Or.inl ?_)⟩
    rw [List.length_take, length_MAGIC]
    omega
  · have inside : MAGIC.length ≤ count := length_MAGIC ▸ enough
    exact ⟨_, decode_take_eq small decoded inside, intact_longest inside⟩

/-- Two objects cut in the body of the second. -/
theorem decode_take_example : ∃ left,
    decode .release ((encode [("a", utf8 "x"), ("b", utf8 "yy")] 100).take 32) = .ok left ∧
      left <+: [("a", utf8 "x"), ("b", utf8 "yy")] ∧
        ([("a", utf8 "x"), ("b", utf8 "yy")] <+: left ↔ 4 + 14 + 15 ≤ 32) := by
  obtain ⟨left, decoded, begins, longest⟩ := ((decode_take .release
    (encode [("a", utf8 "x"), ("b", utf8 "yy")] 100) [("a", utf8 "x"), ("b", utf8 "yy")]
    (by decide) (decode_encode .release _ 100 (by decide) (by decide))).2 32).2 (by decide)
  exact ⟨left, decoded, begins, longest _ List.prefix_rfl⟩

end Pack

end Cicache
