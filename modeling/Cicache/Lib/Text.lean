/-
This file holds what the program takes from its language's standard library about byte strings
and text: little-endian integers, UTF-8, substring and prefix tests, and the splitting of a text
into lines.

Two facts carry the formats built on them. A fixed number of little-endian bytes determines an
integer below the matching power of 256, and back. A text joined from strings with line feeds
gives each string back as one of its lines, as long as that string is one line.
-/

import Mathlib.Algebra.Group.Nat.Defs
import Mathlib.Data.List.Infix
import Mathlib.Data.List.Basic
import Mathlib.Data.Nat.Basic
import Mathlib.Data.List.DropRight

namespace Text

/-- A byte string. -/
abbrev Bytes := List UInt8

/-! ### Little-endian integers -/

/-- The `width` lowest bytes of a number, least significant first. -/
def leBytes : Nat → Nat → Bytes
  | 0, _ => []
  | width + 1, value => UInt8.ofNat value :: leBytes width (value / 256)

/-- The number that little-endian bytes denote. -/
def leNat : Bytes → Nat
  | [] => 0
  | byte :: rest => byte.toNat + 256 * leNat rest

@[simp] theorem length_leBytes (width value : Nat) : (leBytes width value).length = width := by
  induction width generalizing value with
  | zero => rfl
  | succ width inductionHypothesis =>
    rw [leBytes, List.length_cons, inductionHypothesis]

theorem leNat_lt (bytes : Bytes) : leNat bytes < 256 ^ bytes.length := by
  induction bytes with
  | nil => simp [leNat]
  | cons byte rest inductionHypothesis =>
    have small : byte.toNat < 256 := byte.toNat_lt
    rw [leNat, List.length_cons, Nat.pow_succ]
    omega

theorem leNat_leBytes (width value : Nat) :
    leNat (leBytes width value) = value % 256 ^ width := by
  induction width generalizing value with
  | zero => simp [leBytes, leNat, Nat.mod_one]
  | succ width inductionHypothesis =>
    have power : 256 ^ (width + 1) = 256 * 256 ^ width := Nat.pow_succ'
    rw [leBytes, leNat, inductionHypothesis, UInt8.toNat_ofNat', power, Nat.mod_mul]

theorem leNat_leBytes_of_lt {width value : Nat} (small : value < 256 ^ width) :
    leNat (leBytes width value) = value := by
  rw [leNat_leBytes, Nat.mod_eq_of_lt small]

theorem leBytes_leNat (bytes : Bytes) : leBytes bytes.length (leNat bytes) = bytes := by
  induction bytes with
  | nil => rfl
  | cons byte rest inductionHypothesis =>
    have small : byte.toNat < 256 := byte.toNat_lt
    have quotient : (byte.toNat + 256 * leNat rest) / 256 = leNat rest := by omega
    have head : UInt8.ofNat (byte.toNat + 256 * leNat rest) = byte := by
      refine UInt8.toNat_inj.mp ?_
      rw [UInt8.toNat_ofNat']
      omega
    rw [List.length_cons, leNat, leBytes, quotient, inductionHypothesis, head]

/-! ### UTF-8 -/

/-- The UTF-8 bytes of a text. -/
def utf8 (text : String) : Bytes := text.toByteArray.data.toList

/-- The text that bytes encode, when they are valid UTF-8. -/
def fromUtf8 (bytes : Bytes) : Option String := String.fromUTF8? ⟨bytes.toArray⟩

theorem fromUtf8_utf8 (text : String) : fromUtf8 (utf8 text) = some text := by
  unfold fromUtf8 utf8 String.fromUTF8?
  rw [Array.toArray_toList, dif_pos text.isValidUTF8]
  rfl

theorem utf8_of_fromUtf8 {bytes : Bytes} {text : String} (decoded : fromUtf8 bytes = some text) :
    utf8 text = bytes := by
  unfold fromUtf8 String.fromUTF8? at decoded
  split at decoded
  · rw [← Option.some_inj.mp decoded]
    rfl
  · cases decoded

theorem utf8_injective : Function.Injective utf8 := by
  intro first second same
  have decoded := fromUtf8_utf8 first
  rw [same, fromUtf8_utf8] at decoded
  exact (Option.some_inj.mp decoded).symm

@[simp] theorem utf8_append (first second : String) :
    utf8 (first ++ second) = utf8 first ++ utf8 second := by
  unfold utf8
  rw [String.toByteArray_append, ByteArray.data_append, Array.toList_append]

/-! ### Lossy decoding -/

/-- Whether a byte continues a multi-byte sequence. -/
def isContinuation (byte : UInt8) : Bool := 0x80 ≤ byte && byte ≤ 0xBF

/-- Whether the second byte of a sequence is one its first byte admits. -/
def secondFits (first second : UInt8) : Bool :=
  if first = 0xE0 then 0xA0 ≤ second && second ≤ 0xBF
  else if first = 0xED then 0x80 ≤ second && second ≤ 0x9F
  else if first = 0xF0 then 0x90 ≤ second && second ≤ 0xBF
  else if first = 0xF4 then 0x80 ≤ second && second ≤ 0x8F
  else isContinuation second

/-- The number of bytes a sequence with this first byte has, zero for a byte that starts none. -/
def sequenceWidth (first : UInt8) : Nat :=
  if first < 0x80 then 1
  else if 0xC2 ≤ first && first ≤ 0xDF then 2
  else if 0xE0 ≤ first && first ≤ 0xEF then 3
  else if 0xF0 ≤ first && first ≤ 0xF4 then 4
  else 0

/-- How many bytes of a text that starts with an ill-formed sequence belong to that sequence:
the longest start of a well-formed one, and one byte at least. -/
def badLength : Bytes → Nat
  | first :: second :: third :: _ =>
      if sequenceWidth first < 2 || !secondFits first second then 1
      else if sequenceWidth first < 3 || !isContinuation third then 2
      else 3
  | [first, second] => if sequenceWidth first < 2 || !secondFits first second then 1 else 2
  | _ => 1

/-- Decodes with at most `fuel` characters, one replacement character for each ill-formed
sequence. -/
def lossyChars : Nat → Bytes → List Char
  | 0, _ => []
  | _ + 1, [] => []
  | fuel + 1, bytes =>
      match ByteArray.utf8DecodeChar? ⟨bytes.toArray⟩ 0 with
      | some char => char :: lossyChars fuel (bytes.drop char.utf8Size)
      | none => '\uFFFD' :: lossyChars fuel (bytes.drop (badLength bytes))

/-- `String::from_utf8_lossy`: the text itself where the bytes are valid, and replacement
characters in place of what is not. -/
def fromUtf8Lossy (bytes : Bytes) : String :=
  (fromUtf8 bytes).getD (String.ofList (lossyChars bytes.length bytes))

@[simp] theorem fromUtf8Lossy_utf8 (text : String) : fromUtf8Lossy (utf8 text) = text := by
  rw [fromUtf8Lossy, fromUtf8_utf8]
  rfl

/-! ### Substrings -/

/-- `str::contains` with a string pattern. -/
def contains (text pattern : String) : Bool := decide (pattern.toList <:+: text.toList)

/-- A piece of a text is found where it was written. -/
theorem contains_between (front marker back : String) :
    contains (front ++ marker ++ back) marker = true := by
  refine decide_eq_true ⟨front.toList, back.toList, ?_⟩
  rw [String.toList_append, String.toList_append]

/-- `str::starts_with` with a string pattern. -/
def startsWith (text pattern : String) : Bool := decide (pattern.toList <+: text.toList)

theorem startsWith_iff (text pattern : String) :
    startsWith text pattern = true ↔ ∃ rest, text = pattern ++ rest := by
  rw [startsWith, decide_eq_true_iff]
  constructor
  · rintro ⟨rest, same⟩
    refine ⟨String.ofList rest, String.toList_inj.mp ?_⟩
    rw [String.toList_append, String.toList_ofList, same]
  · rintro ⟨rest, rfl⟩
    exact ⟨rest.toList, String.toList_append.symm⟩

theorem append_left_inj (front first second : String) :
    front ++ first = front ++ second ↔ first = second := by
  rw [← String.toList_inj, String.toList_append, String.toList_append, List.append_cancel_left_eq,
    String.toList_inj]

/-- Two texts cut at the first occurrence of one separator agree on both sides of it. -/
theorem split_at_first {Symbol : Type} {separator : Symbol} {first second rest tail : List Symbol}
    (notFirst : separator ∉ first) (notSecond : separator ∉ second)
    (same : first ++ separator :: rest = second ++ separator :: tail) :
    first = second ∧ rest = tail := by
  induction first generalizing second with
  | nil =>
    cases second with
    | nil => exact ⟨rfl, (List.cons.inj same).2⟩
    | cons symbol others =>
      exact absurd ((List.cons.inj same).1 ▸ List.mem_cons_self) notSecond
  | cons symbol others inductionHypothesis =>
    cases second with
    | nil => exact absurd ((List.cons.inj same).1 ▸ List.mem_cons_self) notFirst
    | cons other more =>
      obtain ⟨head, tails⟩ := List.cons.inj same
      obtain ⟨fronts, backs⟩ := inductionHypothesis
        (fun member => notFirst (List.mem_cons_of_mem _ member))
        (fun member => notSecond (List.mem_cons_of_mem _ member)) tails
      exact ⟨by rw [head, fronts], backs⟩

/-- Two texts, each cut at its last separator, agree on both sides of the cut. -/
theorem split_at_last {Symbol : Type} {separator : Symbol} {first second rest tail : List Symbol}
    (notRest : separator ∉ rest) (notTail : separator ∉ tail)
    (same : first ++ separator :: rest = second ++ separator :: tail) :
    first = second ∧ rest = tail := by
  have mirrored := congrArg List.reverse same
  simp only [List.reverse_append, List.reverse_cons, List.append_assoc, List.singleton_append]
    at mirrored
  obtain ⟨backs, fronts⟩ := split_at_first (fun member => notRest (List.mem_reverse.mp member))
    (fun member => notTail (List.mem_reverse.mp member)) mirrored
  exact ⟨List.reverse_inj.mp fronts, List.reverse_inj.mp backs⟩

/-- A part and the separator behind it begin a joined text in three ways: the part is the first
one of the text, it ends inside of that, or it goes on behind it. -/
theorem part_prefix_iff {Symbol : Type} {separator : Symbol} (part first rest : List Symbol) :
    part ++ [separator] <+: first ++ separator :: rest ↔
      part = first ∨ part ++ [separator] <+: first ∨
        ∃ more, part = first ++ separator :: more ∧ more ++ [separator] <+: rest := by
  constructor
  · intro starts
    rcases List.prefix_or_prefix_of_prefix starts (List.prefix_append first _) with inside | beyond
    · exact Or.inr (Or.inl inside)
    · rcases List.prefix_concat_iff.mp beyond with whole | within
      · exact Or.inr (Or.inl (whole ▸ List.prefix_rfl))
      · obtain ⟨more, rfl⟩ := within
        rw [List.append_assoc, List.prefix_append_right_inj] at starts
        cases more with
        | nil => exact Or.inl (List.append_nil first)
        | cons symbol more =>
          rw [List.cons_append, List.cons_prefix_cons] at starts
          obtain ⟨rfl, starts⟩ := starts
          exact Or.inr (Or.inr ⟨more, rfl, starts⟩)
  · rintro (rfl | inside | ⟨more, rfl, starts⟩)
    · exact ⟨rest, by rw [List.append_assoc, List.singleton_append]⟩
    · exact inside.trans (List.prefix_append _ _)
    · rw [List.append_assoc, List.cons_append, List.prefix_append_right_inj,
        List.cons_prefix_cons]
      exact ⟨rfl, starts⟩

/-- `str::strip_prefix`. -/
def stripPrefix (text pattern : String) : Option String :=
  if startsWith text pattern then some (String.ofList (text.toList.drop pattern.toList.length))
  else none

/-- `str::split` on one character. -/
def splitOn (separator : Char) (text : String) : List String :=
  (text.toList.splitOn separator).map String.ofList

/-- `[String]::join` with one character. -/
def join (separator : Char) (parts : List String) : String :=
  String.ofList (List.intercalate [separator] (parts.map String.toList))

theorem splitOn_ne_nil (separator : Char) (text : String) : splitOn separator text ≠ [] := by
  rw [splitOn, ne_eq, List.map_eq_nil_iff]
  exact List.splitOn_ne_nil separator text.toList

/-- Parts without the separator are what the joined text splits into. -/
theorem splitOn_join {separator : Char} {parts : List String} (nonempty : parts ≠ [])
    (free : ∀ part ∈ parts, separator ∉ part.toList) :
    splitOn separator (join separator parts) = parts := by
  have whole : (parts.map String.toList).map String.ofList = parts := by
    rw [List.map_map]
    exact List.map_id'' (fun part => String.ofList_toList) parts
  rw [splitOn, join, String.toList_ofList, List.splitOn_intercalate, whole]
  · intro chars member
    obtain ⟨part, inside, rfl⟩ := List.mem_map.mp member
    exact free part inside
  · simpa using nonempty

/-- What is in none of the parts, nor the separator, is not in the joined text. -/
theorem not_mem_join {separator char : Char} {parts : List String} (other : char ≠ separator)
    (free : ∀ part ∈ parts, char ∉ part.toList) : char ∉ (join separator parts).toList := by
  rw [join, String.toList_ofList]
  induction parts with
  | nil => exact List.not_mem_nil
  | cons part others inductionHypothesis =>
    rw [List.forall_mem_cons] at free
    cases others with
    | nil =>
      rw [List.map_singleton, List.intercalate_singleton]
      exact free.1
    | cons next more =>
      rw [List.map_cons, List.map_cons, List.intercalate_cons_cons, List.mem_append,
        List.mem_append, not_or, not_or]
      exact ⟨⟨free.1, fun member => other (List.mem_singleton.mp member)⟩,
        inductionHypothesis free.2⟩

/-- A piece between separators holds none. -/
theorem not_mem_of_mem_splitOn {separator : Char} {text part : String}
    (member : part ∈ splitOn separator text) : separator ∉ part.toList := by
  have pieces : ∀ chars : List Char, ∀ piece ∈ chars.splitOn separator, separator ∉ piece := by
    intro chars
    induction chars with
    | nil => simp
    | cons char rest inductionHypothesis =>
      rw [List.splitOn_cons_eq_if_modifyHead]
      obtain ⟨first, others, whole⟩ :=
        List.exists_cons_of_ne_nil (List.splitOn_ne_nil separator rest)
      rw [whole, List.forall_mem_cons] at inductionHypothesis
      split
      · rw [whole, List.forall_mem_cons, List.forall_mem_cons]
        exact ⟨List.not_mem_nil, inductionHypothesis⟩
      · rename_i other
        rw [whole, List.modifyHead_cons, List.forall_mem_cons, List.mem_cons, not_or]
        exact ⟨⟨fun same => other (beq_iff_eq.mpr same.symm), inductionHypothesis.1⟩,
          inductionHypothesis.2⟩
  obtain ⟨piece, inside, rfl⟩ := List.mem_map.mp member
  rw [String.toList_ofList]
  exact pieces text.toList piece inside

/-- `str::to_ascii_lowercase`. -/
def toAsciiLowercase (text : String) : String := String.ofList (text.toList.map Char.toLower)

/-! ### Digits -/

/-- The digit of lower-case hexadecimal for a number below 16. -/
def hexDigit (value : Nat) : Char := "0123456789abcdef".toList.getD value '0'

/-- `hex::encode`: two lower-case digits for each byte. -/
def hex (bytes : Bytes) : String :=
  String.ofList (bytes.flatMap fun byte =>
    [hexDigit (byte.toNat / 16), hexDigit (byte.toNat % 16)])

/-- Whether a character is a digit of lower-case hexadecimal. -/
def isHexDigit (char : Char) : Bool :=
  ('0' ≤ char && char ≤ '9') || ('a' ≤ char && char ≤ 'f')

theorem isHexDigit_hexDigit : ∀ value < 16, isHexDigit (hexDigit value) = true := by decide

theorem hexDigit_injective :
    ∀ first < 16, ∀ second < 16, hexDigit first = hexDigit second → first = second := by decide

theorem nibbles_lt (byte : UInt8) : byte.toNat / 16 < 16 ∧ byte.toNat % 16 < 16 := by
  have small : byte.toNat < 256 := byte.toNat_lt
  omega

theorem isHexDigit_of_mem_hex {bytes : Bytes} {char : Char} (member : char ∈ (hex bytes).toList) :
    isHexDigit char = true := by
  rw [hex, String.toList_ofList, List.mem_flatMap] at member
  obtain ⟨byte, _, inside⟩ := member
  rw [List.mem_cons, List.mem_singleton] at inside
  rcases inside with rfl | rfl
  · exact isHexDigit_hexDigit _ (nibbles_lt byte).1
  · exact isHexDigit_hexDigit _ (nibbles_lt byte).2

theorem hex_injective : Function.Injective hex := by
  intro first second same
  replace same := String.ofList_injective same
  induction first generalizing second with
  | nil => cases second with
    | nil => rfl
    | cons byte rest => cases same
  | cons byte rest inductionHypothesis =>
    cases second with
    | nil => cases same
    | cons other others =>
      rw [List.flatMap_cons, List.flatMap_cons] at same
      obtain ⟨high, tails⟩ := List.cons.inj same
      obtain ⟨low, tails⟩ := List.cons.inj tails
      have high := hexDigit_injective _ (nibbles_lt byte).1 _ (nibbles_lt other).1 high
      have low := hexDigit_injective _ (nibbles_lt byte).2 _ (nibbles_lt other).2 low
      have bytes : byte = other := UInt8.toNat_inj.mp (by omega)
      rw [bytes, inductionHypothesis tails]

/-- The decimal digits of a text behind an optional plus sign. -/
def unsignedDigits (text : String) : List Char :=
  match text.toList with
  | '+' :: rest => rest
  | chars => chars

/-- The number that decimal digits denote. -/
def decimal (digits : List Char) : Nat :=
  digits.foldl (fun total digit => 10 * total + (digit.toNat - 48)) 0

/-- `str::parse::<u64>`: at least one digit, and a number below 2^64. -/
def parseU64 (text : String) : Option Nat :=
  let digits := unsignedDigits text
  if digits ≠ [] ∧ digits.all Char.isDigit = true ∧ decimal digits < 2 ^ 64 then
    some (decimal digits)
  else none

theorem isDigit_of_mem_repr {number : Nat} {char : Char}
    (member : char ∈ (Nat.repr number).toList) :
    char.isDigit = true := by
  rw [Nat.toList_repr] at member
  exact Nat.isDigit_of_mem_toDigits (by decide) (by decide) member

theorem hyphen_not_mem_repr (number : Nat) : '-' ∉ (Nat.repr number).toList :=
  fun member => absurd (isDigit_of_mem_repr member) (by decide)

theorem comma_not_mem_repr (number : Nat) : ',' ∉ (Nat.repr number).toList :=
  fun member => absurd (isDigit_of_mem_repr member) (by decide)

/-- A number below 2^64 that was printed is read back. -/
theorem parseU64_repr {number : Nat} (small : number < 2 ^ 64) :
    parseU64 (Nat.repr number) = some number := by
  have digits : unsignedDigits (Nat.repr number) = Nat.toDigits 10 number := by
    unfold unsignedDigits
    split
    · rename_i rest starts
      have plus : '+' ∈ (Nat.repr number).toList := starts ▸ List.mem_cons_self
      exact absurd (isDigit_of_mem_repr plus) (by decide)
    · exact Nat.toList_repr
  have value : decimal (Nat.toDigits 10 number) = number := Nat.ofDigitChars_ten_toDigits
  unfold parseU64
  simp only [digits, value]
  rw [if_pos]
  refine ⟨Nat.toDigits_ne_nil, List.all_eq_true.mpr fun char member => ?_, small⟩
  exact Nat.isDigit_of_mem_toDigits (by decide) (by decide) member

/-! ### Lines -/

/-- A line without the carriage return that precedes its line feed. -/
def dropReturn (line : List Char) : List Char :=
  if line.getLast? = some '\r' then line.dropLast else line

/-- The lines of the remaining characters, given the start of the current one. -/
def linesFrom (pending : List Char) : List Char → List (List Char)
  | [] => if pending = [] then [] else [pending]
  | char :: rest =>
      if char = '\n' then dropReturn pending :: linesFrom [] rest
      else linesFrom (pending ++ [char]) rest

/-- `str::lines`: a line ends at a line feed or at a carriage return and a line feed; the last
line ending is optional. -/
def lines (text : String) : List String := (linesFrom [] text.toList).map String.ofList

/-- `[String]::join` with a line feed. -/
def joinLines (parts : List String) : String :=
  String.ofList (List.intercalate ['\n'] (parts.map String.toList))

/-- The characters Unicode counts as white space. -/
def isWhitespace (char : Char) : Bool :=
  (0x9 ≤ char.toNat && char.toNat ≤ 0xD) || char.toNat == 0x20 || char.toNat == 0x85 ||
    char.toNat == 0xA0 || char.toNat == 0x1680 ||
    (0x2000 ≤ char.toNat && char.toNat ≤ 0x200A) || char.toNat == 0x2028 ||
    char.toNat == 0x2029 || char.toNat == 0x202F || char.toNat == 0x205F || char.toNat == 0x3000

/-- `str::trim`. -/
def trim (text : String) : String :=
  String.ofList ((text.toList.dropWhile isWhitespace).rdropWhile isWhitespace)

/-- `line.trim().is_empty()`. -/
def isBlank (text : String) : Bool := text.toList.all isWhitespace

theorem linesFrom_line (pending line rest : List Char) (oneLine : '\n' ∉ line) :
    linesFrom pending (line ++ '\n' :: rest) =
      dropReturn (pending ++ line) :: linesFrom [] rest := by
  induction line generalizing pending with
  | nil => simp [linesFrom]
  | cons char others inductionHypothesis =>
    have notFeed : char ≠ '\n' := fun same => oneLine (same ▸ List.mem_cons_self)
    have restOne : '\n' ∉ others := fun member => oneLine (List.mem_cons_of_mem _ member)
    rw [List.cons_append, linesFrom, if_neg notFeed, inductionHypothesis _ restOne,
      List.append_assoc, List.singleton_append]

theorem linesFrom_last (pending line : List Char) (oneLine : '\n' ∉ line) :
    linesFrom pending line = if pending ++ line = [] then [] else [pending ++ line] := by
  induction line generalizing pending with
  | nil => simp [linesFrom]
  | cons char others inductionHypothesis =>
    have notFeed : char ≠ '\n' := fun same => oneLine (same ▸ List.mem_cons_self)
    have restOne : '\n' ∉ others := fun member => oneLine (List.mem_cons_of_mem _ member)
    rw [linesFrom, if_neg notFeed, inductionHypothesis _ restOne, List.append_assoc,
      List.singleton_append]

/-- A text after a line feed starts afresh. -/
theorem linesFrom_append (pending front rest : List Char) :
    linesFrom pending (front ++ '\n' :: rest) =
      linesFrom pending (front ++ ['\n']) ++ linesFrom [] rest := by
  induction front generalizing pending with
  | nil => simp [linesFrom]
  | cons char others inductionHypothesis =>
    rw [List.cons_append, List.cons_append, linesFrom, linesFrom]
    split
    · rw [inductionHypothesis, List.cons_append]
    · exact inductionHypothesis _

/-- The characters of a joined text are those of its parts and line feeds between them. -/
theorem intercalate_cons {Symbol : Type} (separator part : List Symbol)
    (parts : List (List Symbol)) :
    List.intercalate separator (part :: parts) =
      if parts = [] then part else part ++ separator ++ List.intercalate separator parts := by
  cases parts with
  | nil => simp
  | cons next others => rw [List.intercalate_cons_cons, if_neg (List.cons_ne_nil _ _)]

/-- What one part of a joined text reads back as: its line, when it is not empty, holds no line
feed and does not end in a carriage return. -/
structure IsLine (line : List Char) : Prop where
  nonempty : line ≠ []
  noFeed : '\n' ∉ line
  noReturn : line.getLast? ≠ some '\r'

theorem dropReturn_of_isLine {line : List Char} (isLine : IsLine line) : dropReturn line = line :=
  if_neg isLine.noReturn

/-- A line among the parts is among the lines of the joined text, whatever the other parts. -/
theorem mem_linesFrom_intercalate {line : List Char} (isLine : IsLine line)
    {parts : List (List Char)} (member : line ∈ parts) :
    line ∈ linesFrom [] (List.intercalate ['\n'] parts) := by
  induction parts with
  | nil => cases member
  | cons part others inductionHypothesis =>
    rw [intercalate_cons]
    by_cases last : others = []
    · subst last
      rw [List.mem_singleton] at member
      subst member
      rw [if_pos rfl, linesFrom_last _ _ isLine.noFeed, List.nil_append, if_neg isLine.nonempty]
      exact List.mem_singleton_self _
    · rw [if_neg last, List.append_assoc, List.singleton_append]
      rcases List.mem_cons.mp member with rfl | later
      · rw [linesFrom_line _ _ _ isLine.noFeed, List.nil_append, dropReturn_of_isLine isLine]
        exact List.mem_cons_self
      · rw [linesFrom_append]
        exact List.mem_append_right _ (inductionHypothesis later)

theorem mem_lines_joinLines {line : String} (isLine : IsLine line.toList) {parts : List String}
    (member : line ∈ parts) : line ∈ lines (joinLines parts) := by
  rw [lines, joinLines, String.toList_ofList]
  refine List.mem_map.mpr ⟨line.toList, ?_, String.ofList_toList⟩
  exact mem_linesFrom_intercalate isLine (List.mem_map_of_mem member)

/-! ### Texts whose lines all end -/

/-- The text of these lines, each with a line feed behind it. -/
def ended (parts : List (List Char)) : List Char := parts.flatMap fun part => part ++ ['\n']

theorem ended_cons (part : List Char) (others : List (List Char)) :
    ended (part :: others) = part ++ '\n' :: ended others := by
  rw [ended, List.flatMap_cons, List.append_assoc, List.singleton_append]
  rfl

/-- The lines of such a text are the lines it was made of, but for carriage returns. -/
theorem linesFrom_ended {parts : List (List Char)} (noFeed : ∀ part ∈ parts, '\n' ∉ part)
    (rest : List Char) :
    linesFrom [] (ended parts ++ rest) = parts.map dropReturn ++ linesFrom [] rest := by
  induction parts with
  | nil => rfl
  | cons part others inductionHypothesis =>
    have later := inductionHypothesis fun other member =>
      noFeed other (List.mem_cons_of_mem _ member)
    rw [ended_cons, List.append_assoc, List.cons_append,
      linesFrom_line _ _ _ (noFeed part List.mem_cons_self), List.nil_append, later, List.map_cons,
      List.cons_append]

/-- Every text that ends in a line feed, or is empty, is of this kind. -/
theorem exists_ended (text : List Char) (ends : text = [] ∨ text.getLast? = some '\n') :
    ∃ parts, (∀ part ∈ parts, '\n' ∉ part) ∧ ended parts = text := by
  induction text with
  | nil => exact ⟨[], fun _ member => absurd member List.not_mem_nil, rfl⟩
  | cons char rest inductionHypothesis =>
    have last : (char :: rest).getLast? = some '\n' := ends.resolve_left (List.cons_ne_nil _ _)
    by_cases empty : rest = []
    · subst empty
      obtain rfl : char = '\n' := Option.some_inj.mp last
      refine ⟨[[]], fun part member => ?_, rfl⟩
      rw [List.mem_singleton.mp member]
      exact List.not_mem_nil
    · have later : rest.getLast? = some '\n' := by
        rwa [← List.singleton_append, List.getLast?_append_of_ne_nil _ empty] at last
      obtain ⟨parts, noFeed, same⟩ := inductionHypothesis (Or.inr later)
      by_cases feed : char = '\n'
      · refine ⟨[] :: parts, fun part member => ?_, by rw [ended_cons, same, feed, List.nil_append]⟩
        rcases List.mem_cons.mp member with rfl | others
        · exact List.not_mem_nil
        · exact noFeed part others
      · cases parts with
        | nil => exact absurd same.symm empty
        | cons part others =>
          refine ⟨(char :: part) :: others, fun other member => ?_, ?_⟩
          · rcases List.mem_cons.mp member with rfl | others
            · refine List.not_mem_cons_of_ne_of_not_mem (Ne.symm feed) ?_
              exact noFeed part List.mem_cons_self
            · exact noFeed other (List.mem_cons_of_mem _ others)
          · rw [ended_cons, List.cons_append, ← ended_cons, same]

theorem infix_ended {parts : List (List Char)} {part : List Char} (member : part ∈ parts) :
    part <:+: ended parts := by
  obtain ⟨front, back, rfl⟩ := List.append_of_mem member
  refine ⟨ended front, '\n' :: ended back, ?_⟩
  rw [List.append_assoc, ← ended_cons]
  exact List.flatMap_append.symm

/-- A carriage return stands before a line feed where a line ends in one. -/
theorem return_infix_iff {parts : List (List Char)} (noFeed : ∀ part ∈ parts, '\n' ∉ part) :
    ['\r', '\n'] <:+: ended parts ↔ ∃ part ∈ parts, part.getLast? = some '\r' := by
  induction parts with
  | nil => exact iff_of_false (fun inside => nomatch List.infix_nil.mp inside) (by simp)
  | cons part others inductionHypothesis =>
    have later := inductionHypothesis fun other member =>
      noFeed other (List.mem_cons_of_mem _ member)
    rw [List.exists_mem_cons_iff, ← later, ended_cons]
    constructor
    · rintro ⟨front, back, same⟩
      have starts : (front ++ ['\r']) ++ ['\n'] <+: part ++ '\n' :: ended others := by
        refine ⟨back, ?_⟩
        rw [← same, List.append_assoc front]
        rfl
      rcases (part_prefix_iff _ _ _).mp starts with whole | inside | ⟨more, longer, goesOn⟩
      · refine Or.inl ?_
        rw [← whole, List.getLast?_append_of_ne_nil _ (List.cons_ne_nil _ _)]
        rfl
      · refine absurd (inside.subset ?_) (noFeed part List.mem_cons_self)
        exact List.mem_append_right _ (List.mem_singleton_self _)
      · refine Or.inr ?_
        have last : ('\n' :: more).getLast? = some '\r' := by
          have lasts := congrArg List.getLast? longer
          rw [List.getLast?_append_of_ne_nil _ (List.cons_ne_nil _ _),
            List.getLast?_append_of_ne_nil _ (List.cons_ne_nil _ _)] at lasts
          exact lasts.symm
        have nonempty : more ≠ [] := by
          rintro rfl
          cases last
        have returns : more.getLast? = some '\r' := by
          rwa [← List.singleton_append, List.getLast?_append_of_ne_nil _ nonempty] at last
        obtain ⟨rest, same⟩ := goesOn
        refine ⟨more.dropLast, rest, ?_⟩
        rw [← same]
        nth_rewrite 2 [← List.dropLast_append_getLast? '\r' returns]
        simp only [List.append_assoc, List.cons_append, List.nil_append]
    · rintro (last | ⟨front, back, same⟩)
      · refine ⟨part.dropLast, ended others, ?_⟩
        nth_rewrite 2 [← List.dropLast_append_getLast? '\r' last]
        simp only [List.append_assoc, List.cons_append, List.nil_append]
      · refine ⟨part ++ '\n' :: front, back, ?_⟩
        rw [← same]
        simp only [List.append_assoc, List.cons_append]

/-- Joined lines with a last line feed. -/
theorem toList_joinLines {parts : List String} (nonempty : parts ≠ []) :
    (joinLines parts ++ "\n").toList = ended (parts.map String.toList) := by
  rw [String.toList_append, joinLines, String.toList_ofList]
  induction parts with
  | nil => exact absurd rfl nonempty
  | cons part others inductionHypothesis =>
    rw [List.map_cons, ended_cons, intercalate_cons]
    by_cases last : others = []
    · rw [last]
      rfl
    · rw [if_neg (by simpa using last), List.append_assoc, inductionHypothesis last,
        List.append_assoc, List.singleton_append]

/-- A line of a text holds no line feed. -/
theorem noFeed_of_mem_linesFrom {pending text line : List Char} (noFeed : '\n' ∉ pending)
    (member : line ∈ linesFrom pending text) : '\n' ∉ line := by
  induction text generalizing pending with
  | nil =>
    rw [linesFrom] at member
    split at member
    · cases member
    · rw [List.mem_singleton.mp member]
      exact noFeed
  | cons char rest inductionHypothesis =>
    rw [linesFrom] at member
    split at member
    · rcases List.mem_cons.mp member with rfl | later
      · unfold dropReturn
        split
        · exact fun inside => noFeed (List.mem_of_mem_dropLast inside)
        · exact noFeed
      · exact inductionHypothesis List.not_mem_nil later
    · rename_i notFeed
      refine inductionHypothesis (fun inside => ?_) member
      rcases List.mem_append.mp inside with before | last
      · exact noFeed before
      · exact notFeed (List.mem_singleton.mp last).symm

end Text
