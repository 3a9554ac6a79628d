/-
This file models how `start` adds the bundle to the configuration of curl and how `stop` takes it
out again, and settles when the two leave the file as it was. Taking it out goes through the lines
of the file: it drops every line that sets a bundle, the user's own among them, and writes the rest
back with line feeds. So a file comes back only when all its lines end in line feeds and none of
them sets a bundle, and one of blank lines only is removed.
-/

import Cicache.Lib.Text

namespace Cicache

open Text

/-! ### The program -/

def CURLRC_MARKER : String := "# added by cicache"

/-- What is added to the file. -/
def addition (bundle_path : String) : String :=
  CURLRC_MARKER ++ "\ncacert = " ++ bundle_path ++ "\n"

/-- A text with its last line ended. -/
def onNewLine (contents : String) : String :=
  if !contents.isEmpty && contents.toList.getLast? ≠ some '\n' then contents ++ "\n" else contents

/-- Points curl's own configuration at the bundle. The file is given by its bytes, if it is there;
the text of one that cannot be read as text is taken for empty. -/
def write_curlrc (bundle_path : String) (file : Option Bytes) : Option Bytes :=
  let existing := (file.bind fromUtf8).getD ""
  if contains existing CURLRC_MARKER then file
  else some (utf8 (onNewLine existing ++ addition bundle_path))

/-- The lines of the configuration that are not removed. -/
def keeps (line : String) : Bool :=
  !startsWith line CURLRC_MARKER && !startsWith line "cacert = "

/-- Removes what `write_curlrc` added. -/
def clear_curlrc (file : Option Bytes) : Option Bytes :=
  match file.bind fromUtf8 with
  | none => file
  | some contents =>
      if !contains contents CURLRC_MARKER then file
      else
        let kept := (lines contents).filter keeps
        if kept.all isBlank then none else some (utf8 (joinLines kept ++ "\n"))

/-! ### When the file comes back -/

/-- The marker stands nowhere in the file. -/
def WithoutMarker (file : Option Bytes) : Prop :=
  ∀ bytes, file = some bytes → ¬ utf8 CURLRC_MARKER <:+: bytes

/-- The lines of the path of the bundle after its first, less those that would be taken out. -/
def stray (bundle_path : String) : List String :=
  (lines (bundle_path ++ "\n")).tail.filter keeps

/-- The file can come back: it is not there, or it is a text of lines that all end in a line feed
and no carriage return, that set no bundle, and that are not all blank. -/
def Restorable (bundle_path : String) : Option Bytes → Prop
  | none => (stray bundle_path).all isBlank = true
  | some bytes => stray bundle_path = [] ∧ ∃ text, fromUtf8 bytes = some text ∧
      text.toList.getLast? = some '\n' ∧ contains text "\r\n" = false ∧
      (∀ line ∈ lines text, startsWith line "cacert = " = false) ∧
      ∃ line ∈ lines text, isBlank line = false

theorem startsWith_ofList {chars : List Char} {pattern : String}
    (starts : pattern.toList <+: chars) :
    startsWith (String.ofList chars) pattern = true := by
  refine decide_eq_true ?_
  rwa [String.toList_ofList (l := chars)]

/-- The lines of a text made of these. -/
theorem lines_of_ended {text : String} {parts : List (List Char)}
    (noFeed : ∀ part ∈ parts, '\n' ∉ part) (made : text.toList = ended parts) :
    lines text = parts.map fun part => String.ofList (dropReturn part) := by
  have read := linesFrom_ended noFeed []
  rw [List.append_nil, ← made] at read
  rw [lines, read, linesFrom, if_pos rfl, List.append_nil, List.map_map]
  rfl

theorem last_feed (text : String) : (text ++ "\n").toList.getLast? = some '\n' := by
  rw [String.toList_append]
  exact List.getLast?_concat

/-- The line that sets the bundle is taken out, whatever the path. -/
theorem keeps_cacert (path : List Char) :
    keeps (String.ofList (dropReturn ("cacert = ".toList ++ path))) = false := by
  have sets : "cacert = ".toList <+: dropReturn ("cacert = ".toList ++ path) := by
    unfold dropReturn
    split
    · rename_i last
      have nonempty : path ≠ [] := by
        rintro rfl
        cases last
      rw [List.dropLast_append_of_ne_nil nonempty]
      exact List.prefix_append _ _
    · exact List.prefix_append _ _
  rw [keeps, startsWith_ofList sets, Bool.not_true, Bool.and_false]

/-- Of what is added only the further lines of the path can be left. -/
theorem keeps_addition (bundle_path : String) :
    (lines (addition bundle_path)).filter keeps = stray bundle_path := by
  obtain ⟨parts, noFeed, made⟩ :=
    exists_ended (bundle_path ++ "\n").toList (Or.inr (last_feed bundle_path))
  cases parts with
  | nil =>
    have ends := last_feed bundle_path
    rw [← made] at ends
    cases ends
  | cons first rest =>
    have parts : (addition bundle_path).toList =
        ended (CURLRC_MARKER.toList :: ("cacert = ".toList ++ first) :: rest) := by
      rw [ended_cons, ended_cons, List.append_assoc, ← ended_cons, made]
      simp only [addition, String.toList_append, List.append_assoc]
      rfl
    have noFeeds : ∀ part ∈ CURLRC_MARKER.toList :: ("cacert = ".toList ++ first) :: rest,
        '\n' ∉ part := by
      rw [List.forall_mem_cons, List.forall_mem_cons, List.mem_append, not_or]
      exact ⟨by decide, ⟨by decide, noFeed _ List.mem_cons_self⟩,
        fun part member => noFeed part (List.mem_cons_of_mem _ member)⟩
    have marker : keeps (String.ofList (dropReturn CURLRC_MARKER.toList)) = false := by decide
    rw [lines_of_ended noFeeds parts, stray, lines_of_ended noFeed made.symm, List.map_cons,
      List.map_cons, List.map_cons, List.tail_cons,
      List.filter_cons_of_neg (Bool.not_eq_true _ ▸ marker),
      List.filter_cons_of_neg (Bool.not_eq_true _ ▸ keeps_cacert first)]

/-- The lines of the configuration once the bundle was added. -/
theorem lines_addition {contents : String}
    (ends : contents.toList = [] ∨ contents.toList.getLast? = some '\n') (bundle_path : String) :
    lines (contents ++ addition bundle_path) = lines contents ++ lines (addition bundle_path) := by
  obtain ⟨parts, noFeed, same⟩ := exists_ended contents.toList ends
  have alone := linesFrom_ended noFeed []
  rw [List.append_nil] at alone
  rw [lines, lines, String.toList_append, ← same, linesFrom_ended noFeed, alone, List.map_append,
    List.map_append]
  simp only [linesFrom, if_pos, List.append_nil, List.map_nil]
  rfl

theorem onNewLine_ends (contents : String) :
    (onNewLine contents).toList = [] ∨ (onNewLine contents).toList.getLast? = some '\n' := by
  unfold onNewLine
  split
  · exact Or.inr (last_feed contents)
  · rename_i kept
    rw [Bool.and_eq_true, not_and_or, Bool.not_eq_true', Bool.not_eq_false, decide_eq_true_iff,
      not_not] at kept
    refine kept.imp_left fun empty => ?_
    rw [String.isEmpty_iff.mp empty]
    rfl

theorem onNewLine_of_ended {contents : String} (ends : contents.toList.getLast? = some '\n') :
    onNewLine contents = contents := by
  unfold onNewLine
  rw [ends]
  exact if_neg (by simp)

/-- The lines that are left when the bundle was added and taken out. -/
def left (bundle_path existing : String) : List String :=
  (lines (onNewLine existing)).filter keeps ++ stray bundle_path

/-- What adding the bundle and taking it out makes of a file. -/
theorem clear_write {file : Option Bytes} {existing : String}
    (read : (file.bind fromUtf8).getD "" = existing)
    (unmarked : contains existing CURLRC_MARKER = false) (bundle_path : String) :
    clear_curlrc (write_curlrc bundle_path file) =
      if (left bundle_path existing).all isBlank = true then none
      else some (utf8 (joinLines (left bundle_path existing) ++ "\n")) := by
  have written : write_curlrc bundle_path file =
      some (utf8 (onNewLine existing ++ addition bundle_path)) := by
    unfold write_curlrc
    rw [read]
    exact if_neg (Bool.not_eq_true _ ▸ unmarked)
  have marked : contains (onNewLine existing ++ addition bundle_path) CURLRC_MARKER = true := by
    have parts : onNewLine existing ++ addition bundle_path =
        onNewLine existing ++ CURLRC_MARKER ++ ("\ncacert = " ++ bundle_path ++ "\n") := by
      simp only [addition, String.append_assoc]
    rw [parts]
    exact contains_between _ _ _
  have kept : (lines (onNewLine existing ++ addition bundle_path)).filter keeps =
      left bundle_path existing := by
    rw [lines_addition (onNewLine_ends existing), List.filter_append, keeps_addition]
    rfl
  rw [written, clear_curlrc, Option.bind_some, fromUtf8_utf8]
  dsimp only
  rw [marked, kept]
  rfl

/-- Text that is left has lines, all of them ended. -/
theorem ended_of_left {kept : List String} {text : String} (visible : kept.all isBlank ≠ true)
    (same : joinLines kept ++ "\n" = text) :
    text.toList = ended (kept.map String.toList) ∧ text.toList.getLast? = some '\n' := by
  have nonempty : kept ≠ [] := by
    rintro rfl
    exact visible rfl
  rw [← same]
  exact ⟨toList_joinLines nonempty, last_feed _⟩

/-- What is kept of a line without its carriage return is kept of the line. -/
theorem keeps_dropReturn {line : List Char} (kept : keeps (String.ofList line) = true) :
    keeps (String.ofList (dropReturn line)) = true := by
  have shorter : dropReturn line <+: line := by
    unfold dropReturn
    split
    · exact List.dropLast_prefix line
    · exact List.prefix_rfl
  have starts : ∀ pattern, startsWith (String.ofList line) pattern = false →
      startsWith (String.ofList (dropReturn line)) pattern = false := by
    intro pattern without
    rw [startsWith, decide_eq_false_iff_not, String.toList_ofList (l := _)] at without ⊢
    exact fun begins => without (begins.trans shorter)
  rw [keeps, Bool.and_eq_true, Bool.not_eq_true', Bool.not_eq_true'] at kept ⊢
  exact ⟨starts _ kept.1, starts _ kept.2⟩

theorem contains_marker {bytes : Bytes} {text : String} (decoded : fromUtf8 bytes = some text)
    (unmarked : WithoutMarker (some bytes)) : contains text CURLRC_MARKER = false := by
  refine decide_eq_false ?_
  rintro ⟨front, back, same⟩
  refine unmarked bytes rfl ⟨utf8 (String.ofList front), utf8 (String.ofList back), ?_⟩
  rw [← utf8_of_fromUtf8 decoded, ← utf8_append, ← utf8_append]
  refine congrArg utf8 (String.toList_inj.mp ?_)
  rw [String.toList_append, String.toList_append, ← same, String.toList_ofList (l := front),
    String.toList_ofList (l := back)]

theorem noFeed_of_mem_lines {text line : String} (member : line ∈ lines text) :
    '\n' ∉ line.toList := by
  obtain ⟨part, inside, rfl⟩ := List.mem_map.mp member
  rw [String.toList_ofList (l := part)]
  exact noFeed_of_mem_linesFrom List.not_mem_nil inside

/-- What is left has no line feeds, and is what is kept. -/
theorem mem_left {bundle_path existing line : String} (member : line ∈ left bundle_path existing) :
    '\n' ∉ line.toList ∧ keeps line = true := by
  rcases List.mem_append.mp member with before | added
  · exact ⟨noFeed_of_mem_lines (List.mem_of_mem_filter before), (List.mem_filter.mp before).2⟩
  · have further := List.mem_of_mem_tail (List.mem_of_mem_filter added)
    exact ⟨noFeed_of_mem_lines further, (List.mem_filter.mp added).2⟩

/-- A file comes back only when it is one that can: each of its lines has to be among those that
are kept, so none is dropped and there is no room for another. -/
theorem restorable_of_restored {bundle_path text : String}
    (visible : (left bundle_path text).all isBlank ≠ true)
    (same : joinLines (left bundle_path text) ++ "\n" = text) :
    stray bundle_path = [] ∧ text.toList.getLast? = some '\n' ∧ contains text "\r\n" = false ∧
      (∀ line ∈ lines text, startsWith line "cacert = " = false) ∧
      ∃ line ∈ lines text, isBlank line = false := by
  obtain ⟨made, ends⟩ := ended_of_left visible same
  have noFeed : ∀ part ∈ (left bundle_path text).map String.toList, '\n' ∉ part := by
    intro part member
    obtain ⟨line, inside, rfl⟩ := List.mem_map.mp member
    exact (mem_left inside).1
  have read := lines_of_ended noFeed made
  have nothingDropped : (lines text).filter keeps = lines text := by
    rw [List.filter_eq_self]
    intro line member
    rw [read, List.map_map] at member
    obtain ⟨kept, inside, rfl⟩ := List.mem_map.mp member
    refine keeps_dropReturn ?_
    rw [String.ofList_toList]
    exact (mem_left inside).2
  have parts : left bundle_path text = lines text ++ stray bundle_path := by
    rw [left, onNewLine_of_ended ends, nothingDropped]
  have noStray : stray bundle_path = [] := by
    have count := congrArg List.length parts
    rw [List.length_append, read, List.length_map, List.length_map] at count
    exact List.eq_nil_of_length_eq_zero (by omega)
  rw [noStray, List.append_nil] at parts
  have noReturn : ∀ part ∈ (left bundle_path text).map String.toList,
      part.getLast? ≠ some '\r' := by
    intro part member last
    obtain ⟨line, inside, rfl⟩ := List.mem_map.mp member
    rw [← parts, List.map_map] at read
    have whole := (List.map_inj_left.mp ((List.map_id _).trans read)) line inside
    have letters : line.toList = dropReturn line.toList := by
      have same := congrArg String.toList whole
      exact same.trans (String.toList_ofList (l := dropReturn line.toList))
    rw [dropReturn, if_pos last] at letters
    have count := congrArg List.length letters
    rw [List.length_dropLast] at count
    have nonempty : line.toList ≠ [] := by
      intro empty
      rw [empty] at last
      cases last
    have positive := List.length_pos_of_ne_nil nonempty
    omega
  refine ⟨noStray, ends, ?_, ?_, ?_⟩
  · refine decide_eq_false ?_
    show ¬ ['\r', '\n'] <:+: text.toList
    rw [made, return_infix_iff noFeed]
    rintro ⟨part, member, last⟩
    exact noReturn part member last
  · intro line member
    rw [← parts] at member
    have kept := (mem_left member).2
    rw [keeps, Bool.and_eq_true, Bool.not_eq_true', Bool.not_eq_true'] at kept
    exact kept.2
  · rw [← parts]
    rw [Ne, List.all_eq_true, not_forall] at visible
    obtain ⟨line, some⟩ := visible
    rw [Classical.not_imp, Bool.not_eq_true] at some
    exact ⟨line, some⟩

/-- A file that can come back does. -/
theorem restored_of_restorable {bundle_path text : String}
    (unmarked : contains text CURLRC_MARKER = false) (noStray : stray bundle_path = [])
    (ends : text.toList.getLast? = some '\n') (noReturn : contains text "\r\n" = false)
    (unset : ∀ line ∈ lines text, startsWith line "cacert = " = false) :
    left bundle_path text = lines text ∧ joinLines (lines text) ++ "\n" = text := by
  obtain ⟨parts, noFeed, made⟩ := exists_ended text.toList (Or.inr ends)
  have whole : ∀ part ∈ parts, dropReturn part = part := by
    intro part member
    refine if_neg fun last => ?_
    have inside : ['\r', '\n'] <:+: text.toList :=
      made ▸ (return_infix_iff noFeed).mpr ⟨part, member, last⟩
    exact absurd inside (of_decide_eq_false noReturn)
  have read : lines text = parts.map String.ofList := by
    rw [lines_of_ended noFeed made.symm]
    exact List.map_congr_left fun part member => by rw [whole part member]
  have nothingDropped : (lines text).filter keeps = lines text := by
    rw [List.filter_eq_self]
    intro line member
    have notMarked : startsWith line CURLRC_MARKER = false := by
      rw [read] at member
      obtain ⟨part, inside, rfl⟩ := List.mem_map.mp member
      refine decide_eq_false fun starts => of_decide_eq_false unmarked ?_
      rw [String.toList_ofList (l := part)] at starts
      exact starts.isInfix.trans (made ▸ infix_ended inside)
    rw [keeps, notMarked, unset line member]
    rfl
  refine ⟨?_, String.toList_inj.mp ?_⟩
  · rw [left, onNewLine_of_ended ends, nothingDropped, noStray, List.append_nil]
  · have letters : (lines text).map String.toList = parts := by
      rw [read, List.map_map]
      refine (List.map_congr_left fun part _ => ?_).trans (List.map_id _)
      exact String.toList_ofList (l := part)
    have nonempty : lines text ≠ [] := by
      intro none
      rw [none] at letters
      rw [← made, ← letters] at ends
      cases ends
    rw [toList_joinLines nonempty, letters, made]

/-- Adding the bundle and taking it out leaves a file without the marker as it was exactly when the
file can come back. -/
theorem curlrc_restored_iff (bundle_path : String) {file : Option Bytes}
    (unmarked : WithoutMarker file) :
    clear_curlrc (write_curlrc bundle_path file) = file ↔ Restorable bundle_path file := by
  cases file with
  | none =>
    have nothing : left bundle_path "" = stray bundle_path := by
      rw [left, show (lines (onNewLine "")).filter keeps = [] from rfl, List.nil_append]
    have read : ((none : Option Bytes).bind fromUtf8).getD "" = "" := rfl
    rw [clear_write read (by decide), nothing]
    constructor
    · intro gone
      by_contra visible
      rw [Restorable] at visible
      rw [if_neg visible] at gone
      cases gone
    · exact fun blank => if_pos blank
  | some bytes =>
    cases decoded : fromUtf8 bytes with
    | none =>
      have read : ((some bytes).bind fromUtf8).getD "" = "" := by
        rw [Option.bind_some, decoded]
        rfl
      rw [clear_write read (by decide)]
      refine iff_of_false (fun same => ?_) ?_
      · split at same
        · cases same
        · rw [← Option.some_inj.mp same, fromUtf8_utf8] at decoded
          cases decoded
      · rintro ⟨_, text, readable, _⟩
        rw [decoded] at readable
        cases readable
    | some text =>
      have read : ((some bytes).bind fromUtf8).getD "" = text := by
        rw [Option.bind_some, decoded]
        rfl
      have noMarker := contains_marker decoded unmarked
      have bytesAre := utf8_of_fromUtf8 decoded
      rw [clear_write read noMarker]
      constructor
      · intro same
        split at same
        · cases same
        · rename_i visible
          have texts := utf8_injective ((Option.some_inj.mp same).trans bytesAre.symm)
          obtain ⟨noStray, rest⟩ := restorable_of_restored visible texts
          exact ⟨noStray, text, decoded, rest⟩
      · rintro ⟨noStray, other, readable, ends, noReturn, unset, line, member, visible⟩
        obtain rfl := Option.some_inj.mp (decoded.symm.trans readable)
        obtain ⟨same, joined⟩ := restored_of_restorable noMarker noStray ends noReturn unset
        have shown : (left bundle_path text).all isBlank ≠ true := by
          intro blank
          rw [List.all_eq_true.mp blank line (same ▸ member)] at visible
          cases visible
        rw [if_neg shown, same, joined, bytesAre]

theorem withoutMarker_user : WithoutMarker (some (utf8 "user = x\n")) := by
  intro bytes same
  rw [← Option.some_inj.mp same]
  decide +kernel

theorem restorable_user : Restorable "/home/runner/bundle.pem" (some (utf8 "user = x\n")) := by
  refine ⟨by decide +kernel, "user = x\n", fromUtf8_utf8 _, by decide, by decide +kernel, ?_⟩
  rw [show lines "user = x\n" = ["user = x"] by decide +kernel]
  decide +kernel

/-- A file that sets the user alone comes back. -/
theorem curlrc_restored_user :
    WithoutMarker (some (utf8 "user = x\n")) ∧
      clear_curlrc (write_curlrc "/home/runner/bundle.pem" (some (utf8 "user = x\n"))) =
        some (utf8 "user = x\n") :=
  ⟨withoutMarker_user, (curlrc_restored_iff _ withoutMarker_user).mpr restorable_user⟩

/-- The user's own bundle is taken out with the one that was added. -/
theorem own_cacert_removed :
    ¬ ∀ (bundle_path : String) (file : Option Bytes), WithoutMarker file →
      clear_curlrc (write_curlrc bundle_path file) = file := by
  intro always
  have own : WithoutMarker (some (utf8 "user = x\ncacert = /mine.pem\n")) := by
    intro bytes same
    rw [← Option.some_inj.mp same]
    decide +kernel
  have same := always "/home/runner/bundle.pem" _ own
  have removed : clear_curlrc (write_curlrc "/home/runner/bundle.pem"
      (some (utf8 "user = x\ncacert = /mine.pem\n"))) = some (utf8 "user = x\n") := by
    decide +kernel
  rw [removed] at same
  revert same
  decide +kernel

end Cicache
