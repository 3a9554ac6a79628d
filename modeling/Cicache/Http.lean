/-
This file models the HTTP values the proxy handles: header names and values as the types of the
`http` crate admit them, and the header map, an ordered multimap. A name or a value that the
crate could not build cannot be built here either.

The laws at the end are what replaying a response rests on: a name read back from its text is the
same name, a value read back from its text is the same value, and a map rebuilt by appending
entries one by one lists, for every name, the values it was given in the order it was given them.
-/

import Cicache.Lib.Text

namespace Cicache

open Text

/-! ### Names and values -/

/-- A character of a header name in its normal, lower-case form. -/
def isTokenChar (char : Char) : Bool :=
  ('a' ≤ char && char ≤ 'z') || ('0' ≤ char && char ≤ '9') ||
    "!#$%&'*+-.^_`|~".toList.contains char

/-- A header name: a token in lower case, shorter than 2^16. -/
structure HeaderName where
  text : String
  isToken : text.toList ≠ [] ∧ text.toList.all isTokenChar = true ∧ text.toList.length < 2 ^ 16
  deriving DecidableEq

/-- A byte of a header value: a tab, or any byte from the space on except the delete byte. -/
def isValueByte (byte : UInt8) : Bool := byte == 9 || (32 ≤ byte && byte != 127)

/-- A byte of a header value that counts as text: a tab or a visible ASCII character. -/
def isVisibleAscii (byte : UInt8) : Bool := byte == 9 || (32 ≤ byte && byte < 127)

/-- A header value: any bytes that HTTP allows in one. -/
structure HeaderValue where
  bytes : Bytes
  isValue : bytes.all isValueByte = true
  deriving DecidableEq

namespace HeaderName

/-- `HeaderName::from_str`: lower-cases a token and refuses anything else. -/
def parse (text : String) : Option HeaderName :=
  let lower := String.ofList (text.toList.map Char.toLower)
  if isToken : lower.toList ≠ [] ∧ lower.toList.all isTokenChar = true ∧
      lower.toList.length < 2 ^ 16 then
    some ⟨lower, isToken⟩
  else none

def ACCEPT_ENCODING : HeaderName := ⟨"accept-encoding", by decide⟩
def AUTHORIZATION : HeaderName := ⟨"authorization", by decide⟩
def CACHE_CONTROL : HeaderName := ⟨"cache-control", by decide⟩
def CONTENT_LENGTH : HeaderName := ⟨"content-length", by decide⟩
def COOKIE : HeaderName := ⟨"cookie", by decide⟩
def HOST : HeaderName := ⟨"host", by decide⟩
def X_CICACHE : HeaderName := ⟨"x-cicache", by decide⟩

theorem toLower_of_isTokenChar {char : Char} (token : isTokenChar char = true) :
    char.toLower = char := by
  rw [isTokenChar, Bool.or_eq_true, Bool.or_eq_true, Bool.and_eq_true, Bool.and_eq_true,
    decide_eq_true_iff, decide_eq_true_iff, decide_eq_true_iff, decide_eq_true_iff,
    List.contains_iff_mem] at token
  rcases token with (letter | digit) | mark
  · refine dif_neg fun upper => ?_
    have high : 'a'.val ≤ 'Z'.val := UInt32.le_trans letter.1 upper.2
    exact absurd high (by decide)
  · refine dif_neg fun upper => ?_
    have low : 'A'.val ≤ '9'.val := UInt32.le_trans upper.1 digit.2
    exact absurd low (by decide)
  · have marks : ("!#$%&'*+-.^_`|~".toList.all fun mark => mark.toLower = mark) = true := rfl
    exact of_decide_eq_true (List.all_eq_true.mp marks char mark)

/-- A name read back from its own text is the same name. -/
theorem parse_text (name : HeaderName) : parse name.text = some name := by
  have same : name.text.toList.map Char.toLower = name.text.toList := by
    refine (List.map_congr_left fun char member => ?_).trans (List.map_id _)
    exact toLower_of_isTokenChar (List.all_eq_true.mp name.isToken.2.1 char member)
  unfold parse
  simp only [same, String.ofList_toList, dif_pos name.isToken]

end HeaderName

namespace HeaderValue

/-- `HeaderValue::to_str`: the text of a value that is all visible ASCII and tabs. -/
def to_str (value : HeaderValue) : Option String :=
  if value.bytes.all isVisibleAscii then fromUtf8 value.bytes else none

/-- `HeaderValue::from_str`. -/
def from_str (text : String) : Option HeaderValue :=
  if isValue : (utf8 text).all isValueByte = true then some ⟨utf8 text, isValue⟩ else none

theorem utf8EncodeChar_ascii {byte : UInt8} (ascii : byte < 128) :
    String.utf8EncodeChar (Char.ofNat byte.toNat) = [byte] := by
  have small : byte.toNat < 128 := ascii
  have isChar : byte.toNat.isValidChar := Or.inl (by omega)
  have value : (Char.ofNat byte.toNat).val.toNat = byte.toNat := by
    rw [Char.ofNat, dif_pos isChar]
    rfl
  simp only [String.utf8EncodeChar, value]
  rw [if_pos (by omega), UInt8.ofNat_toNat]

/-- Bytes that are all ASCII are text. -/
theorem fromUtf8_ascii {bytes : Bytes} (ascii : ∀ byte ∈ bytes, byte < 128) :
    fromUtf8 bytes = some (String.ofList (bytes.map fun byte => Char.ofNat byte.toNat)) := by
  have encoded : utf8 (String.ofList (bytes.map fun byte => Char.ofNat byte.toNat)) = bytes := by
    rw [utf8, String.toByteArray_ofList, List.utf8Encode, List.data_toByteArray,
      List.toList_toArray, List.flatMap_map]
    refine (List.flatMap_congr fun byte member => utf8EncodeChar_ascii (ascii byte member)).trans ?_
    exact List.flatMap_singleton' bytes
  rw [← fromUtf8_utf8, encoded]

/-- Whether a value has a text is whether its bytes are all visible ASCII and tabs. -/
theorem to_str_isSome_iff (value : HeaderValue) :
    value.to_str.isSome = true ↔ value.bytes.all isVisibleAscii = true := by
  unfold to_str
  split
  · rename_i visible
    have ascii : ∀ byte ∈ value.bytes, byte < 128 := by
      intro byte member
      have shown := List.all_eq_true.mp visible byte member
      simp only [isVisibleAscii, Bool.or_eq_true, beq_iff_eq, Bool.and_eq_true,
        decide_eq_true_iff] at shown
      rcases shown with rfl | ⟨_, below⟩
      · decide
      · exact UInt8.lt_trans below (by decide)
    rw [fromUtf8_ascii ascii]
    exact iff_of_true rfl visible
  · rename_i hidden
    exact iff_of_false (by simp) hidden

/-- A value read back from its own text is the same value. -/
theorem from_str_to_str {value : HeaderValue} {text : String} (read : value.to_str = some text) :
    from_str text = some value := by
  unfold to_str at read
  split at read
  · have same := utf8_of_fromUtf8 read
    unfold from_str
    simp only [same, dif_pos value.isValue]
  · cases read

end HeaderValue

/-! ### Status codes -/

/-- `StatusCode`: a number of three digits. -/
structure StatusCode where
  code : UInt16
  isStatus : 100 ≤ code ∧ code < 1000
  deriving DecidableEq

namespace StatusCode

def OK : StatusCode := ⟨200, by decide⟩
def BAD_REQUEST : StatusCode := ⟨400, by decide⟩
def NOT_FOUND : StatusCode := ⟨404, by decide⟩
def CONFLICT : StatusCode := ⟨409, by decide⟩
def TOO_MANY_REQUESTS : StatusCode := ⟨429, by decide⟩
def BAD_GATEWAY : StatusCode := ⟨502, by decide⟩

/-- `StatusCode::from_u16`. -/
def from_u16 (code : UInt16) : Option StatusCode :=
  if isStatus : 100 ≤ code ∧ code < 1000 then some ⟨code, isStatus⟩ else none

def is_success (status : StatusCode) : Bool := 200 ≤ status.code && status.code < 300

@[simp] theorem from_u16_code (status : StatusCode) : from_u16 status.code = some status :=
  dif_pos status.isStatus

end StatusCode

/-! ### Header maps -/

/-- A header map: an ordered multimap, as the list of its entries. What it says about one name is
`get_all`, which does not depend on how entries of different names are ordered. -/
abbrev HeaderMap := List (HeaderName × HeaderValue)

namespace HeaderMap

/-- The values of one name, in order. -/
def get_all (map : HeaderMap) (name : HeaderName) : List HeaderValue :=
  (map.filter fun entry => entry.1 = name).map Prod.snd

/-- The first value of a name. -/
def get (map : HeaderMap) (name : HeaderName) : Option HeaderValue := (map.get_all name).head?

def contains_key (map : HeaderMap) (name : HeaderName) : Bool := !(map.get_all name).isEmpty

/-- Adds a value behind those the name already has. -/
def append (map : HeaderMap) (name : HeaderName) (value : HeaderValue) : HeaderMap :=
  map ++ [(name, value)]

/-- Drops every value of a name. -/
def remove (map : HeaderMap) (name : HeaderName) : HeaderMap :=
  map.filter fun entry => entry.1 ≠ name

/-- Replaces every value of a name by one. -/
def insert (map : HeaderMap) (name : HeaderName) (value : HeaderValue) : HeaderMap :=
  (map.remove name).append name value

@[simp] theorem get_all_nil (name : HeaderName) : get_all [] name = [] := rfl

theorem get_all_cons (entry : HeaderName × HeaderValue) (map : HeaderMap) (name : HeaderName) :
    get_all (entry :: map) name =
      if entry.1 = name then entry.2 :: get_all map name else get_all map name := by
  unfold get_all
  rw [List.filter_cons]
  by_cases same : entry.1 = name
  · rw [if_pos same, if_pos (by simpa using same), List.map_cons]
  · rw [if_neg same, if_neg (by simpa using same)]

theorem get_all_append (map other : HeaderMap) (name : HeaderName) :
    get_all (map ++ other) name = map.get_all name ++ get_all other name := by
  unfold get_all
  rw [List.filter_append, List.map_append]

theorem get_all_remove (map : HeaderMap) (removed name : HeaderName) :
    (map.remove removed).get_all name = if name = removed then [] else map.get_all name := by
  induction map with
  | nil => simp [remove, get_all]
  | cons entry rest inductionHypothesis =>
    unfold remove at inductionHypothesis ⊢
    rw [List.filter_cons]
    by_cases dropped : entry.1 = removed
    · rw [if_neg (by simpa using dropped), inductionHypothesis, get_all_cons]
      by_cases same : name = removed
      · rw [if_pos same, if_pos same]
      · rw [if_neg same, if_neg same, if_neg fun found => same (found.symm.trans dropped)]
    · rw [if_pos (by simpa using dropped), get_all_cons, inductionHypothesis, get_all_cons]
      by_cases same : name = removed
      · rw [if_pos same, if_pos same, if_neg fun found => dropped (found.trans same)]
      · rw [if_neg same, if_neg same]

theorem get_all_insert (map : HeaderMap) (inserted name : HeaderName) (value : HeaderValue) :
    (map.insert inserted value).get_all name =
      if name = inserted then [value] else map.get_all name := by
  rw [insert, append, get_all_append, get_all_remove, get_all_cons, get_all_nil]
  by_cases same : name = inserted
  · rw [if_pos same, if_pos same, if_pos same.symm, List.nil_append]
  · rw [if_neg same, if_neg same, if_neg fun found => same found.symm, List.append_nil]

end HeaderMap

end Cicache
