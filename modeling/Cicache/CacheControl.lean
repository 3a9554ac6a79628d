/-
This file settles whether a response that forbids storing is stored. A response may carry several
`Cache-Control` lines, each a list of directives, and HTTP allows bytes in them that are no text.
The policy looks at the first line only, and takes it for empty when it has no text; so what later
lines forbid, or a line with a byte beyond ASCII, goes unseen.

What the policy sees is said twice: by the text its checks run over, and by the field lines of the
response. The second is what the main theorem is stated in.
-/

import Cicache.Replay
import Cicache.System

namespace Cicache

open Text

/-! ### Directives -/

def lowerByte (byte : UInt8) : UInt8 := if 0x41 ≤ byte && byte ≤ 0x5A then byte + 0x20 else byte

/-- A space or a tab. -/
def isSpaceByte (byte : UInt8) : Bool := byte == 0x20 || byte == 0x09

/-- Where a reader of a line stands: outside any quoted string, inside one, or behind a backslash
inside one. -/
inductive Quoting where
  | outside
  | inside
  | escaped
  deriving DecidableEq

def Quoting.next : Quoting → UInt8 → Quoting
  | .outside, byte => if byte = 0x22 then .inside else .outside
  | .inside, byte => if byte = 0x22 then .outside else if byte = 0x5C then .escaped else .inside
  | .escaped, _ => .inside

/-- The parts of a line between the commas that stand outside quoted strings. A string that is not
closed reaches to the end of the line. -/
def listParts : Quoting → Bytes → List Bytes
  | _, [] => [[]]
  | quoting, byte :: rest =>
    if quoting = .outside ∧ byte = 0x2C then [] :: listParts .outside rest
    else (listParts (quoting.next byte) rest).modifyHead (List.cons byte)

/-- The names of the directives of a line, in lower case and without their arguments. -/
def directives (line : Bytes) : List Bytes :=
  (listParts .outside line).map fun directive =>
    (((directive.takeWhile fun byte => byte != 0x3D).dropWhile isSpaceByte).rdropWhile
      isSpaceByte).map lowerByte

/-- The directives that forbid a shared cache to store the response, or to reuse it unasked. -/
def FORBIDDING : List String := ["no-store", "no-cache", "private"]

/-- Some directive of some `Cache-Control` line forbids storing. -/
def Forbids (headers : HeaderMap) : Prop :=
  ∃ line ∈ headers.get_all .CACHE_CONTROL, ∃ word ∈ FORBIDDING, utf8 word ∈ directives line.bytes

/-- What the policy makes of the `Cache-Control` lines: the text of the first, in lower case. -/
def cacheControl (headers : HeaderMap) : String :=
  toAsciiLowercase (((headers.get .CACHE_CONTROL).bind HeaderValue.to_str).getD "")

/-- The text the policy looks at contains a forbidding word. -/
def SaysForbidden (headers : HeaderMap) : Prop :=
  ∃ word ∈ FORBIDDING, contains (cacheControl headers) word = true

/-- Something tells the policy that the response will not change. -/
def LooksImmutable (policy : Policy) (url : Url) (headers : HeaderMap) : Prop :=
  policy.cache_all = true ∨ contains (cacheControl headers) "immutable" = true ∨
    (max_age (cacheControl headers)).any (fun age => age ≥ policy.min_max_age) = true ∨
    is_immutable_artifact url = true

/-! ### What the first line holds -/

/-- The bytes of the first `Cache-Control` line in lower case, when all of them are visible. -/
def firstLine (headers : HeaderMap) : Option Bytes :=
  (headers.get .CACHE_CONTROL).bind fun line =>
    if line.bytes.all isVisibleAscii then some (line.bytes.map lowerByte) else none

/-- A forbidding word stands in the first line, and that line is all visible ASCII. -/
def FirstForbids (headers : HeaderMap) : Prop :=
  ∃ line ∈ firstLine headers, ∃ word ∈ FORBIDDING, utf8 word <:+: line

/-- The character an ASCII byte stands for. -/
def asciiChar (byte : UInt8) : Char := Char.ofNat byte.toNat

/-- The check is off, or the URL is in the table, or the first line is all visible ASCII and says
`immutable` or a long enough `max-age`. -/
def Marked (policy : Policy) (url : Url) (headers : HeaderMap) : Prop :=
  policy.cache_all = true ∨ is_immutable_artifact url = true ∨
    ∃ line ∈ firstLine headers, utf8 "immutable" <:+: line ∨
      ∃ age ∈ max_age (String.ofList (line.map asciiChar)), age ≥ policy.min_max_age

theorem ofNat_toNat_asciiChar (byte : UInt8) : UInt8.ofNat (asciiChar byte).toNat = byte := by
  have table : ∀ value < 256, (Char.ofNat value).toNat = value := by decide +kernel
  have value : (asciiChar byte).toNat = byte.toNat := table byte.toNat byte.toNat_lt
  rw [value, UInt8.ofNat_toNat]

/-- A text is a part of another exactly if its bytes are. -/
theorem infix_asciiChar_iff (part line : Bytes) :
    part.map asciiChar <:+: line.map asciiChar ↔ part <:+: line := by
  have back : ∀ bytes : Bytes,
      (bytes.map asciiChar).map (fun char => UInt8.ofNat char.toNat) = bytes := by
    intro bytes
    rw [List.map_map]
    exact (List.map_congr_left fun byte _ => ofNat_toNat_asciiChar byte).trans (List.map_id _)
  constructor
  · intro inside
    have mapped := inside.map fun char => UInt8.ofNat char.toNat
    rwa [back part, back line] at mapped
  · exact fun inside => inside.map asciiChar

theorem toLower_asciiChar {byte : UInt8} (ascii : byte < 128) :
    (asciiChar byte).toLower = asciiChar (lowerByte byte) := by
  have table : ∀ value < 128, (Char.ofNat value).toLower =
      Char.ofNat (lowerByte (UInt8.ofNat value)).toNat := by decide
  have small : byte.toNat < 128 := ascii
  have shown := table byte.toNat small
  rwa [UInt8.ofNat_toNat] at shown

theorem ascii_of_visible {bytes : Bytes} (visible : bytes.all isVisibleAscii = true) :
    ∀ byte ∈ bytes, byte < 128 := by
  intro byte member
  have shown := List.all_eq_true.mp visible byte member
  simp only [isVisibleAscii, Bool.or_eq_true, beq_iff_eq, Bool.and_eq_true,
    decide_eq_true_iff] at shown
  rcases shown with rfl | ⟨_, below⟩
  · decide
  · exact UInt8.lt_trans below (by decide)

/-- The text the policy looks at is that of the first line, and empty when it has none. -/
theorem cacheControl_eq (headers : HeaderMap) :
    cacheControl headers = String.ofList (((firstLine headers).getD []).map asciiChar) := by
  unfold cacheControl firstLine
  cases headers.get .CACHE_CONTROL with
  | none => rfl
  | some line =>
    rw [Option.bind_some, Option.bind_some, HeaderValue.to_str]
    by_cases visible : line.bytes.all isVisibleAscii = true
    · have ascii := ascii_of_visible visible
      rw [if_pos visible, HeaderValue.fromUtf8_ascii ascii, Option.getD_some, toAsciiLowercase,
        String.toList_ofList, if_pos visible, Option.getD_some, List.map_map, List.map_map]
      exact congrArg String.ofList
        (List.map_congr_left fun byte member => toLower_asciiChar (ascii byte member))
    · rw [if_neg visible, if_neg visible]
      rfl

/-- A word is in the text the policy looks at exactly if it is in the first line. -/
theorem contains_cacheControl_iff {word : String}
    (isAscii : word.toList = (utf8 word).map asciiChar)
    (nonempty : utf8 word ≠ []) (headers : HeaderMap) :
    contains (cacheControl headers) word = true ↔
      ∃ line ∈ firstLine headers, utf8 word <:+: line := by
  rw [contains, decide_eq_true_iff, cacheControl_eq, String.toList_ofList, isAscii,
    infix_asciiChar_iff]
  cases firstLine headers with
  | none => simpa using nonempty
  | some line => simp

theorem isAscii_forbidding :
    ∀ word ∈ FORBIDDING, word.toList = (utf8 word).map asciiChar ∧ utf8 word ≠ [] := by decide

theorem isAscii_immutable :
    "immutable".toList = (utf8 "immutable").map asciiChar ∧ utf8 "immutable" ≠ [] := by decide

theorem saysForbidden_iff (headers : HeaderMap) : SaysForbidden headers ↔ FirstForbids headers := by
  constructor
  · rintro ⟨word, forbidding, inText⟩
    obtain ⟨isAscii, nonempty⟩ := isAscii_forbidding word forbidding
    obtain ⟨line, first, inLine⟩ :=
      (contains_cacheControl_iff isAscii nonempty headers).mp inText
    exact ⟨line, first, word, forbidding, inLine⟩
  · rintro ⟨line, first, word, forbidding, inLine⟩
    obtain ⟨isAscii, nonempty⟩ := isAscii_forbidding word forbidding
    exact ⟨word, forbidding,
      (contains_cacheControl_iff isAscii nonempty headers).mpr ⟨line, first, inLine⟩⟩

theorem looksImmutable_iff (policy : Policy) (url : Url) (headers : HeaderMap) :
    LooksImmutable policy url headers ↔ Marked policy url headers := by
  have aged : (max_age (cacheControl headers)).any (fun age => age ≥ policy.min_max_age) = true ↔
      ∃ line ∈ firstLine headers, ∃ age ∈ max_age (String.ofList (line.map asciiChar)),
        age ≥ policy.min_max_age := by
    rw [cacheControl_eq]
    cases firstLine headers with
    | none => exact iff_of_false Bool.false_ne_true (by simp)
    | some line => simp [Option.any_eq_true]
  rw [LooksImmutable, contains_cacheControl_iff isAscii_immutable.1 isAscii_immutable.2, aged]
  constructor
  · rintro (all | ⟨line, first, word⟩ | ⟨line, first, old⟩ | table)
    · exact Or.inl all
    · exact Or.inr (Or.inr ⟨line, first, Or.inl word⟩)
    · exact Or.inr (Or.inr ⟨line, first, Or.inr old⟩)
    · exact Or.inr (Or.inl table)
  · rintro (all | table | ⟨line, first, word | old⟩)
    · exact Or.inl all
    · exact Or.inr (Or.inr (Or.inr table))
    · exact Or.inr (Or.inl ⟨line, first, word⟩)
    · exact Or.inr (Or.inr (Or.inl ⟨line, first, old⟩))

/-! ### A directive of a readable line is seen -/

theorem infix_intercalate {Symbol : Type} (separator : List Symbol) {part : List Symbol}
    {parts : List (List Symbol)} (member : part ∈ parts) :
    part <:+: List.intercalate separator parts := by
  induction parts with
  | nil => cases member
  | cons first rest inductionHypothesis =>
    cases rest with
    | nil =>
      obtain rfl := List.mem_singleton.mp member
      rw [List.intercalate_singleton]
    | cons second others =>
      rw [List.intercalate_cons_cons]
      rcases List.mem_cons.mp member with rfl | later
      · exact ⟨[], separator ++ List.intercalate separator (second :: others), by simp⟩
      · exact (inductionHypothesis later).trans (List.suffix_append _ _).isInfix

theorem listParts_ne_nil (quoting : Quoting) (line : Bytes) : listParts quoting line ≠ [] := by
  induction line generalizing quoting with
  | nil => exact List.cons_ne_nil _ _
  | cons byte rest inductionHypothesis =>
    rw [listParts]
    split
    · exact List.cons_ne_nil _ _
    · obtain ⟨first, others, parts⟩ :=
        List.exists_cons_of_ne_nil (inductionHypothesis (quoting.next byte))
      rw [parts]
      exact List.cons_ne_nil _ _

/-- The parts of a line with commas between them are the line. -/
theorem intercalate_listParts (quoting : Quoting) (line : Bytes) :
    List.intercalate [0x2C] (listParts quoting line) = line := by
  induction line generalizing quoting with
  | nil => rfl
  | cons byte rest inductionHypothesis =>
    rw [listParts]
    split
    · rename_i isComma
      rw [intercalate_cons, if_neg (listParts_ne_nil _ _), inductionHypothesis, isComma.2]
      rfl
    · obtain ⟨first, others, parts⟩ :=
        List.exists_cons_of_ne_nil (listParts_ne_nil (quoting.next byte) rest)
      have joined := inductionHypothesis (quoting.next byte)
      rw [parts, intercalate_cons] at joined
      rw [parts, List.modifyHead_cons, intercalate_cons, ← joined]
      split
      · rfl
      · rfl

/-- A directive's name is a part of its line, but for case. -/
theorem infix_of_mem_directives {line name : Bytes} (member : name ∈ directives line) :
    name <:+: line.map lowerByte := by
  obtain ⟨directive, inLine, rfl⟩ := List.mem_map.mp member
  have part : directive <:+: line := by
    have inside := infix_intercalate [0x2C] inLine
    rwa [intercalate_listParts] at inside
  refine List.IsInfix.map lowerByte ?_
  calc ((directive.takeWhile fun byte => byte != 0x3D).dropWhile isSpaceByte).rdropWhile isSpaceByte
      <:+: (directive.takeWhile fun byte => byte != 0x3D).dropWhile isSpaceByte :=
        (List.rdropWhile_prefix _ _).isInfix
    _ <:+: directive.takeWhile fun byte => byte != 0x3D := (List.dropWhile_suffix _).isInfix
    _ <:+: directive := (List.takeWhile_prefix _).isInfix
    _ <:+: line := part

-- A comma inside a quoted string separates nothing.
example : directives (utf8 "ext=\"a, no-store, b\", Private=\"x\"") =
    [utf8 "ext", utf8 "private"] :=
  by decide

/-- A forbidding directive of the first line is seen when that line is all visible ASCII. -/
theorem firstForbids_of_first {headers : HeaderMap} {line : HeaderValue} {word : String}
    (first : headers.get .CACHE_CONTROL = some line)
    (visible : line.bytes.all isVisibleAscii = true) (forbidding : word ∈ FORBIDDING)
    (member : utf8 word ∈ directives line.bytes) : FirstForbids headers := by
  refine ⟨line.bytes.map lowerByte, ?_, word, forbidding, infix_of_mem_directives member⟩
  rw [firstLine, first, Option.bind_some, if_pos visible]
  rfl

/-! ### What is not stored -/

/-- The responses that are not stored: those of another status or size, those that seem to forbid
it, and those that nothing marks as immutable. -/
theorem response_storable_error_iff (policy : Policy) (url : Url) (status : UInt16)
    (headers : HeaderMap) (len : Nat) :
    (∃ reject, policy.response_storable url status headers len = .error reject) ↔
      SaysForbidden headers ∨ status ≠ 200 ∨ len < policy.min_size ∨ len > policy.max_size ∨
        ¬ LooksImmutable policy url headers := by
  have word : SaysForbidden headers ↔ (contains (cacheControl headers) "no-store" ||
      contains (cacheControl headers) "no-cache" ||
      contains (cacheControl headers) "private") = true := by
    simp [SaysForbidden, FORBIDDING, or_assoc]
  have looks : LooksImmutable policy url headers ↔ (policy.cache_all ||
      contains (cacheControl headers) "immutable" ||
      (max_age (cacheControl headers)).any (fun age => age ≥ policy.min_max_age) ||
      is_immutable_artifact url) = true := by
    simp only [LooksImmutable, Bool.or_eq_true, or_assoc]
  have checks : policy.response_storable url status headers len =
      if status ≠ 200 then .error .Status
      else if contains (cacheControl headers) "no-store" ||
          contains (cacheControl headers) "no-cache" ||
          contains (cacheControl headers) "private" then .error .NoStore
      else if len < policy.min_size then .error .TooSmall
      else if len > policy.max_size then .error .TooLarge
      else if policy.cache_all || contains (cacheControl headers) "immutable" ||
          (max_age (cacheControl headers)).any (fun age => age ≥ policy.min_max_age) ||
          is_immutable_artifact url then .ok ()
      else .error .NotImmutable := rfl
  rw [word, looks, checks]
  split
  · rename_i other
    exact iff_of_true ⟨_, rfl⟩ (Or.inr (Or.inl other))
  · rename_i isOk
    split
    · rename_i forbidden
      exact iff_of_true ⟨_, rfl⟩ (Or.inl forbidden)
    · rename_i silent
      split
      · rename_i small
        exact iff_of_true ⟨_, rfl⟩ (Or.inr (Or.inr (Or.inl small)))
      · rename_i notSmall
        split
        · rename_i large
          exact iff_of_true ⟨_, rfl⟩ (Or.inr (Or.inr (Or.inr (Or.inl large))))
        · rename_i notLarge
          split
          · rename_i immutable
            refine iff_of_false nofun ?_
            simp only [silent, isOk, notSmall, notLarge, immutable]
            decide
          · rename_i changing
            exact iff_of_true ⟨_, rfl⟩ (Or.inr (Or.inr (Or.inr (Or.inr changing))))

/-- A policy that stores whatever is not seen to forbid it. -/
def storeAll : Policy := ⟨0, 0, 0, true, false, [], ""⟩

/-- Whether a response that forbids storing is refused, by what its field lines hold. Every policy
refuses it, at every URL, status and size, exactly if its first line is all visible ASCII and holds
a forbidding word. One policy refuses it also when the status, the size or a missing mark does. And
a forbidding directive of a first line that is all visible ASCII is always among the words held. -/
theorem forbidding_refused_iff (headers : HeaderMap) :
    ((∀ (policy : Policy) (url : Url) (status : UInt16) (len : Nat), Forbids headers →
        ∃ reject, policy.response_storable url status headers len = .error reject) ↔
      (Forbids headers → FirstForbids headers)) ∧
    (∀ (policy : Policy) (url : Url) (status : UInt16) (len : Nat), (Forbids headers →
        ∃ reject, policy.response_storable url status headers len = .error reject) ↔
      (Forbids headers → FirstForbids headers ∨ status ≠ 200 ∨ len < policy.min_size ∨
        len > policy.max_size ∨ ¬ Marked policy url headers)) ∧
    ∀ line word, headers.get .CACHE_CONTROL = some line → line.bytes.all isVisibleAscii = true →
      word ∈ FORBIDDING → utf8 word ∈ directives line.bytes → FirstForbids headers := by
  have refused : ∀ (policy : Policy) (url : Url) (status : UInt16) (len : Nat),
      (∃ reject, policy.response_storable url status headers len = .error reject) ↔
        FirstForbids headers ∨ status ≠ 200 ∨ len < policy.min_size ∨ len > policy.max_size ∨
          ¬ Marked policy url headers := by
    intro policy url status len
    rw [response_storable_error_iff, saysForbidden_iff, looksImmutable_iff]
  refine ⟨⟨fun always forbids => ?_, fun seen policy url status len forbids => ?_⟩,
    fun policy url status len => imp_congr_right fun _ => refused policy url status len,
    fun _ _ first visible forbidding member =>
      firstForbids_of_first first visible forbidding member⟩
  · have marked : Marked storeAll exampleUrl headers := Or.inl rfl
    rcases (refused storeAll exampleUrl 200 0).mp (always storeAll exampleUrl 200 0 forbids) with
      seen | other | small | large | unmarked
    · exact seen
    · exact absurd rfl other
    · exact absurd small (Nat.not_lt_zero _)
    · exact absurd large (Nat.not_lt_zero _)
    · exact absurd marked unmarked
  · exact (refused policy url status len).mpr (Or.inl (seen forbids))

/-- A response in two `Cache-Control` lines, the second of which forbids storing. -/
def twoLines : HeaderMap :=
  [(.CACHE_CONTROL, ⟨utf8 "immutable", by decide⟩), (.CACHE_CONTROL, ⟨utf8 "no-store", by decide⟩)]

/-- It is stored all the same. -/
theorem forbidding_stored :
    ¬ ∀ (policy : Policy) (url : Url) (status : UInt16) (headers : HeaderMap) (len : Nat),
      Forbids headers →
        ∃ reject, policy.response_storable url status headers len = .error reject := by
  intro always
  have forbids : Forbids twoLines :=
    ⟨⟨utf8 "no-store", by decide⟩, by decide, "no-store", by decide, by decide⟩
  obtain ⟨reject, refused⟩ := always exampleProxy.policy exampleUrl 200 twoLines 1 forbids
  have stored : exampleProxy.policy.response_storable exampleUrl 200 twoLines 1 = .ok () := by
    decide +kernel
  rw [stored] at refused
  cases refused

end Cicache
