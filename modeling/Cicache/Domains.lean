/-
This file settles which hosts the bypass list covers. A listed name is to cover the hosts that end
in its labels, whatever the case of the letters and with or without the dot of the root. The
brackets around an IPv6 address belong to how it is written, on either side. The policy compares
bytes: a suffix that a dot precedes. The two agree on where labels begin, but the policy compares
neither the letters of a listed name in another case, nor a root dot on one side only, nor an
address that is listed in brackets.
-/

import Cicache.CacheControl

namespace Cicache

open Text

/-! ### Suffixes of a text and of its parts -/

theorem intercalate_append {Symbol : Type} (separator : List Symbol)
    {front parts : List (List Symbol)} (before : front ≠ []) (nonempty : parts ≠ []) :
    List.intercalate separator (front ++ parts) =
      List.intercalate separator front ++ separator ++ List.intercalate separator parts := by
  induction front with
  | nil => exact absurd rfl before
  | cons part rest inductionHypothesis =>
    rw [List.cons_append, intercalate_cons, if_neg
      (List.append_ne_nil_of_right_ne_nil rest nonempty)]
    by_cases last : rest = []
    · rw [last, List.nil_append, List.intercalate_singleton]
    · rw [inductionHypothesis last, intercalate_cons, if_neg last]
      simp only [List.append_assoc]

/-- The parts of one text end in the parts of another when the first ends in the second and a
separator stands before it. -/
theorem splitOn_suffix_iff {Symbol : Type} [DecidableEq Symbol] (separator : Symbol)
    (tail text : List Symbol) :
    tail.splitOn separator <:+ text.splitOn separator ↔
      tail = text ∨ separator :: tail <:+ text := by
  constructor
  · rintro ⟨front, parts⟩
    have joined := congrArg (List.intercalate [separator]) parts
    rw [List.intercalate_splitOn] at joined
    by_cases whole : front = []
    · rw [whole, List.nil_append, List.intercalate_splitOn] at joined
      exact Or.inl joined
    · rw [intercalate_append _ whole (List.splitOn_ne_nil _ _), List.intercalate_splitOn] at joined
      refine Or.inr ⟨List.intercalate [separator] front, ?_⟩
      rw [← joined, List.append_assoc, List.singleton_append]
  · rintro (rfl | ⟨front, rfl⟩)
    · exact List.suffix_rfl
    · rw [List.splitOn_append_cons_self]
      exact List.suffix_append _ _

/-- A text ends in a mark and a tail when it ends in the tail and the mark stands before that. -/
theorem cons_suffix_iff {Symbol : Type} (mark : Symbol) (tail text : List Symbol) :
    mark :: tail <:+ text ↔
      (tail.length < text.length ∧ tail <:+ text) ∧
        text[text.length - tail.length - 1]? = some mark := by
  constructor
  · rintro ⟨front, rfl⟩
    refine ⟨⟨?_, front ++ [mark], by rw [List.append_assoc, List.singleton_append]⟩, ?_⟩
    · rw [List.length_append, List.length_cons]
      omega
    · have position : (front ++ mark :: tail).length - tail.length - 1 = front.length := by
        rw [List.length_append, List.length_cons]
        omega
      rw [position, List.getElem?_append_right le_rfl, Nat.sub_self]
      rfl
  · rintro ⟨⟨longer, front, rfl⟩, marked⟩
    have position : (front ++ tail).length - tail.length - 1 = front.length - 1 := by
      rw [List.length_append, Nat.add_sub_cancel]
    have before : front.length - 1 < front.length := by
      rw [List.length_append] at longer
      omega
    rw [position, List.getElem?_append_left before, ← List.getLast?_eq_getElem?] at marked
    refine ⟨front.dropLast, ?_⟩
    rw [← List.singleton_append, ← List.append_assoc, List.dropLast_append_getLast? mark marked]

/-! ### Labels -/

/-- The text of a name without the dot of the root. -/
def dropRoot (name : Bytes) : Bytes := if name.getLast? = some 0x2E then name.dropLast else name

/-- A name or an address without the brackets that an IPv6 address stands in. -/
def unbracket (name : String) : String :=
  match name.toList with
  | '[' :: address =>
    if address.getLast? = some ']' then String.ofList address.dropLast else name
  | _ => name

/-- The labels of a name or an address, in lower case, without brackets and without the empty label
of the root. -/
def labels (name : String) : List Bytes :=
  (dropRoot ((utf8 (unbracket name)).map lowerByte)).splitOn 0x2E

/-- A listed name covers a host when the host's labels end in the labels of the name. -/
def Covers (host name : String) : Prop := labels name <:+ labels host

/-- A text without capital letters. -/
def LowerCase (text : String) : Prop := ∀ byte ∈ utf8 text, lowerByte byte = byte

/-- A listed name is spelled as the host is: in lower case, without brackets, and with the dot of
the root exactly when the host has it. -/
def SpelledFor (host name : String) : Prop :=
  LowerCase name ∧ unbracket name = name ∧
    ((utf8 name).getLast? = some 0x2E ↔ (utf8 (unbracket host)).getLast? = some 0x2E)

/-- The host as `is_bypassed` trims it. -/
def bareHost (host : String) : String :=
  String.ofList ((host.toList.dropWhile fun char => char == '[').rdropWhile fun char => char == ']')

instance (text : String) : Decidable (LowerCase text) :=
  decidable_of_iff ((utf8 text).all fun byte => lowerByte byte = byte) (by simp [LowerCase])

instance (host name : String) : Decidable (Covers host name) :=
  inferInstanceAs (Decidable (labels name <:+ labels host))

instance (host name : String) : Decidable (SpelledFor host name) :=
  inferInstanceAs (Decidable (LowerCase name ∧ unbracket name = name ∧
    ((utf8 name).getLast? = some 0x2E ↔ (utf8 (unbracket host)).getLast? = some 0x2E)))

/-- The names a policy never caches. -/
def Policy.bypassNames (policy : Policy) : List String := ALWAYS_BYPASS ++ policy.extra_bypass

theorem map_lowerByte {text : String} (lower : LowerCase text) :
    (utf8 text).map lowerByte = utf8 text :=
  (List.map_congr_left lower).trans (List.map_id _)

/-! ### Brackets -/

/-- A host is a text without brackets, or one between two brackets. -/
theorem isHost_brackets {host : String} (fromUrl : isHost host = true) :
    ∃ inner : List Char, '[' ∉ inner ∧ ']' ∉ inner ∧
      (host.toList = inner ∨ host.toList = '[' :: (inner ++ [']'])) := by
  rw [isHost, Bool.or_eq_true] at fromUrl
  rcases fromUrl with plain | bracketed
  · refine ⟨host.toList, fun inside => ?_, fun inside => ?_, Or.inl rfl⟩
    · exact absurd (List.all_eq_true.mp plain _ inside) (by decide)
    · exact absurd (List.all_eq_true.mp plain _ inside) (by decide)
  · split at bracketed
    · rename_i address shape
      rw [Bool.and_eq_true, beq_iff_eq] at bracketed
      have ends := List.dropLast_append_getLast? ']' bracketed.1
      refine ⟨address.dropLast, fun inside => ?_, fun inside => ?_, Or.inr (by rw [shape, ends])⟩
      · exact absurd (List.all_eq_true.mp bracketed.2 _ inside) (by decide)
      · exact absurd (List.all_eq_true.mp bracketed.2 _ inside) (by decide)
    · cases bracketed

theorem unbracket_of_plain {name : String} (plain : '[' ∉ name.toList) : unbracket name = name := by
  unfold unbracket
  split
  · rename_i address shape
    rw [shape] at plain
    exact absurd List.mem_cons_self plain
  · rfl

theorem unbracket_of_brackets {name : String} {inner : List Char}
    (shape : name.toList = '[' :: (inner ++ [']'])) : unbracket name = String.ofList inner := by
  rw [unbracket, shape]
  simp only [List.getLast?_concat, List.dropLast_concat, if_true]

/-- Of the host of a URL the policy trims just the brackets around an address. -/
theorem bareHost_eq {host : String} (fromUrl : isHost host = true) :
    bareHost host = unbracket host ∧ '[' ∉ (unbracket host).toList := by
  obtain ⟨inner, noOpen, noClose, shape⟩ := isHost_brackets fromUrl
  have front : ∀ chars : List Char, '[' ∉ chars →
      chars.dropWhile (fun char => char == '[') = chars := by
    intro chars plain
    refine List.dropWhile_eq_self_iff.mpr fun longer isOpen => plain ?_
    exact eq_of_beq isOpen ▸ List.getElem_mem longer
  have back : inner.rdropWhile (fun char => char == ']') = inner := by
    refine List.rdropWhile_eq_self_iff.mpr fun nonempty isClose => noClose ?_
    exact eq_of_beq isClose ▸ List.getLast_mem nonempty
  rcases shape with plain | bracketed
  · rw [unbracket_of_plain (plain ▸ noOpen), bareHost, plain, front inner noOpen, back, ← plain,
      String.ofList_toList]
    exact ⟨rfl, plain ▸ noOpen⟩
  · have noOpens : '[' ∉ inner ++ [']'] := fun member =>
      (List.mem_append.mp member).elim noOpen (by decide)
    rw [unbracket_of_brackets bracketed, bareHost, bracketed,
      List.dropWhile_cons_of_pos (by decide), front _ noOpens,
      List.rdropWhile_concat_pos _ _ _ (by decide), back, String.toList_ofList]
    exact ⟨rfl, noOpen⟩

/-! ### Bytes and characters -/

theorem utf8_ofList (chars : List Char) :
    utf8 (String.ofList chars) = chars.flatMap String.utf8EncodeChar := by
  rw [utf8, String.toByteArray_ofList, List.utf8Encode, List.data_toByteArray, List.toList_toArray]

/-- Only a bracket has the byte of a bracket in its encoding. -/
theorem open_of_mem_utf8EncodeChar {char : Char} (member : 0x5B ∈ String.utf8EncodeChar char) :
    char = '[' := by
  have high : ∀ number : Nat, 128 ≤ number % 256 → (0x5B : UInt8) ≠ UInt8.ofNat number := by
    intro number large equal
    have numbers := congrArg UInt8.toNat equal
    rw [UInt8.toNat_ofNat'] at numbers
    exact absurd (numbers ▸ large) (by decide)
  unfold String.utf8EncodeChar at member
  simp only at member
  split at member
  · rename_i ascii
    have numbers := congrArg UInt8.toNat (List.mem_singleton.mp member)
    rw [UInt8.toNat_ofNat', Nat.mod_eq_of_lt (by omega)] at numbers
    exact Char.ext (UInt32.toNat_inj.mp numbers.symm)
  · refine absurd member ?_
    split
    · simp only [List.mem_cons, List.not_mem_nil, or_false, not_or]
      exact ⟨high _ (by omega), high _ (by omega)⟩
    · split
      · simp only [List.mem_cons, List.not_mem_nil, or_false, not_or]
        exact ⟨high _ (by omega), high _ (by omega), high _ (by omega)⟩
      · simp only [List.mem_cons, List.not_mem_nil, or_false, not_or]
        exact ⟨high _ (by omega), high _ (by omega), high _ (by omega), high _ (by omega)⟩

theorem open_mem_utf8_iff (text : String) : 0x5B ∈ utf8 text ↔ '[' ∈ text.toList := by
  rw [← String.ofList_toList (s := text), utf8_ofList, List.mem_flatMap, String.toList_ofList]
  constructor
  · rintro ⟨char, inside, member⟩
    exact open_of_mem_utf8EncodeChar member ▸ inside
  · exact fun inside => ⟨'[', inside, by decide⟩

/-- What stands between the brackets of a host has no capital letters when the host has none. -/
theorem lowerCase_unbracket {host : String} (lower : LowerCase host) :
    LowerCase (unbracket host) := by
  unfold unbracket
  split
  · rename_i address shape
    split
    · intro byte member
      rw [utf8_ofList, List.mem_flatMap] at member
      obtain ⟨char, inAddress, inChar⟩ := member
      refine lower byte ?_
      rw [← String.ofList_toList (s := host), utf8_ofList, shape]
      exact List.mem_flatMap.mpr
        ⟨char, List.mem_cons_of_mem _ (List.dropLast_subset _ inAddress), inChar⟩
    · exact lower
  · exact lower

/-- A host matches a listed name in bytes when the labels do, as they are written. -/
theorem host_matches_iff (host name : String) :
    host_matches host name = true ↔
      utf8 name = utf8 host ∨ 0x2E :: utf8 name <:+ utf8 host := by
  unfold host_matches
  rw [Bool.or_eq_true, decide_eq_true_iff, Bool.and_eq_true, Bool.and_eq_true, decide_eq_true_iff,
    decide_eq_true_iff, beq_iff_eq, cons_suffix_iff, eq_comm]

/-- Taking the root's dot from both names changes nothing about how one ends in the other. -/
theorem dropRoot_suffix_iff {name host : Bytes}
    (same : name.getLast? = some 0x2E ↔ host.getLast? = some 0x2E) :
    (dropRoot name = dropRoot host ∨ 0x2E :: dropRoot name <:+ dropRoot host) ↔
      (name = host ∨ 0x2E :: name <:+ host) := by
  by_cases root : name.getLast? = some 0x2E
  · have hostRoot := same.mp root
    have cancel : ∀ first second : Bytes,
        first ++ [0x2E] <:+ second ++ [0x2E] ↔ first <:+ second := by
      intro first second
      constructor
      · rintro ⟨front, shape⟩
        rw [← List.append_assoc] at shape
        exact ⟨front, List.append_cancel_right shape⟩
      · rintro ⟨front, rfl⟩
        exact ⟨front, by rw [List.append_assoc]⟩
    have nameShape := List.dropLast_append_getLast? 0x2E root
    have hostShape := List.dropLast_append_getLast? 0x2E hostRoot
    rw [dropRoot, dropRoot, if_pos root, if_pos hostRoot, ← cancel, List.cons_append, nameShape,
      hostShape]
    refine or_congr_left ⟨fun equal => ?_, fun equal => by rw [equal]⟩
    rw [← nameShape, ← hostShape, equal]
  · rw [dropRoot, dropRoot, if_neg root, if_neg (root ∘ same.mpr)]

/-- A host matches a name in bytes exactly when the name covers it and is spelled as it is. -/
theorem host_matches_bareHost_iff {host name : String} (fromUrl : isHost host = true)
    (lower : LowerCase host) (nonempty : name ≠ "") :
    host_matches (bareHost host) name = true ↔ Covers host name ∧ SpelledFor host name := by
  obtain ⟨trimmed, noOpen⟩ := bareHost_eq fromUrl
  rw [trimmed]
  have bareLower := lowerCase_unbracket lower
  have covers : SpelledFor host name →
      (Covers host name ↔ host_matches (unbracket host) name = true) := by
    rintro ⟨nameLower, plain, root⟩
    rw [Covers, labels, labels, plain, map_lowerByte nameLower, map_lowerByte bareLower,
      splitOn_suffix_iff, dropRoot_suffix_iff root, host_matches_iff]
  refine ⟨fun found => ?_, fun ⟨covered, spelled⟩ => (covers spelled).mp covered⟩
  have suffix : utf8 name <:+ utf8 (unbracket host) := by
    rcases (host_matches_iff _ _).mp found with same | after
    · exact same ▸ List.suffix_rfl
    · exact (List.suffix_cons _ _).trans after
  -- A bracket in the name would be one of the bytes it shares with the host.
  have plain : '[' ∉ name.toList := fun inside =>
    noOpen ((open_mem_utf8_iff _).mp (suffix.subset ((open_mem_utf8_iff _).mpr inside)))
  have spelled : SpelledFor host name := by
    refine ⟨fun byte member => bareLower byte (suffix.subset member), unbracket_of_plain plain, ?_⟩
    obtain ⟨front, shape⟩ := suffix
    have bytes : utf8 name ≠ [] := fun empty => nonempty (utf8_injective empty)
    rw [← shape, List.getLast?_append_of_ne_nil _ bytes]
  exact ⟨(covers spelled).mpr found, spelled⟩

/-- `host_matches` with the bounds check of the byte it looks at; `none` is the panic. -/
def host_matches_checked (host pattern : String) : Option Bool :=
  let host := utf8 host
  let pattern := utf8 pattern
  if host = pattern then some true
  else if host.length > pattern.length && decide (pattern <:+ host) then
    host[host.length - pattern.length - 1]?.map fun byte => byte == 0x2E
  else some false

/-- The byte that is looked at always lies inside the host. -/
theorem host_matches_checked_eq (host pattern : String) :
    host_matches_checked host pattern = some (host_matches host pattern) := by
  unfold host_matches_checked host_matches
  simp only
  by_cases same : utf8 host = utf8 pattern
  · rw [if_pos same, decide_eq_true same]
    rfl
  · rw [if_neg same, decide_eq_false same, Bool.false_or]
    split
    · rename_i ends
      have longer := of_decide_eq_true (Bool.and_eq_true _ _ ▸ ends).1
      have inside : (utf8 host).length - (utf8 pattern).length - 1 < (utf8 host).length := by omega
      rw [ends, List.getElem?_eq_getElem inside, Option.map_some, Bool.true_and]
      rfl
    · rename_i apart
      rw [Bool.not_eq_true] at apart
      rw [apart, Bool.false_and]

/-- The policy bypasses a host exactly when a listed name covers it, if and only if some name that
covers it is spelled as the host is. It never bypasses a host that no listed name covers, and never
looks at a byte outside the host. -/
theorem is_bypassed_iff {policy : Policy} (nonempty : "" ∉ policy.extra_bypass) {host : String}
    (fromUrl : isHost host = true) (lower : LowerCase host) :
    ((policy.is_bypassed host = true ↔ ∃ name ∈ policy.bypassNames, Covers host name) ↔
      ((∃ name ∈ policy.bypassNames, Covers host name) →
        ∃ name ∈ policy.bypassNames, Covers host name ∧ SpelledFor host name)) ∧
    (policy.is_bypassed host = true → ∃ name ∈ policy.bypassNames, Covers host name) ∧
    ∀ name, host_matches_checked (bareHost host) name =
      some (host_matches (bareHost host) name) := by
  have listed : ∀ name ∈ policy.bypassNames, name ≠ "" := by
    rintro name member rfl
    rcases List.mem_append.mp member with always | extra
    · exact absurd always (by decide)
    · exact nonempty extra
  have bypassed : policy.is_bypassed host = true ↔
      ∃ name ∈ policy.bypassNames, Covers host name ∧ SpelledFor host name := by
    rw [Policy.is_bypassed, List.any_eq_true]
    exact exists_congr fun name => and_congr_right fun member =>
      host_matches_bareHost_iff fromUrl lower (listed name member)
  have sound : policy.is_bypassed host = true → ∃ name ∈ policy.bypassNames, Covers host name :=
    fun found => (bypassed.mp found).imp fun _ covered => ⟨covered.1, covered.2.1⟩
  refine ⟨⟨fun same covered => bypassed.mp (same.mpr covered), fun spelled => ?_⟩, sound,
    host_matches_checked_eq (bareHost host)⟩
  exact ⟨sound, fun covered => bypassed.mpr (spelled covered)⟩

/-- A subdomain of a blob storage host is bypassed. -/
theorem blob_bypassed :
    exampleProxy.policy.is_bypassed "x.blob.core.windows.net" = true ↔
      ∃ name ∈ exampleProxy.policy.bypassNames, Covers "x.blob.core.windows.net" name :=
  (is_bypassed_iff (by decide) (by decide) (by decide)).1.mpr fun _ =>
    ⟨"blob.core.windows.net", by decide, by decide, by decide⟩

-- The loopback address is covered in brackets; an address that is listed in brackets is missed.
example : Covers "[::1]" "::1" ∧ SpelledFor "[::1]" "::1" := by decide
example : Covers "[fe80::1]" "[fe80::1]" ∧ ¬ SpelledFor "[fe80::1]" "[fe80::1]" := by decide

/-- The loopback host written with the dot of the root is not bypassed. -/
theorem localhost_root_cached :
    ¬ ∀ (policy : Policy) (host : String), "" ∉ policy.extra_bypass → isHost host = true →
      LowerCase host →
      (policy.is_bypassed host = true ↔ ∃ name ∈ policy.bypassNames, Covers host name) := by
  intro always
  have covered : ∃ name ∈ exampleProxy.policy.bypassNames, Covers "localhost." name :=
    ⟨"localhost", by decide, by decide⟩
  have missed : exampleProxy.policy.is_bypassed "localhost." = false := by decide
  have found := (always exampleProxy.policy "localhost." (by decide) (by decide) (by decide)).mpr
    covered
  rw [missed] at found
  cases found

end Cicache
