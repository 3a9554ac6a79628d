/-
This file models file paths as text: the components a path names, joining a path to a base, and
what it means that a path names something directly inside a directory. Components are those of
the Unix convention: the root, a leading dot, a double dot, and names; empty pieces and other
dots count for nothing.

Joining appends the components of a relative path to those of the base and replaces the base by
an absolute path. A path joined to a directory therefore stays directly inside it exactly when
it is relative and has one component, a name, or is absolute and names such a place by itself.
-/

import Cicache.Lib.Text

namespace Path

open Text

/-- A component of a path. -/
inductive Component where
  | RootDir
  | CurDir
  | ParentDir
  | Normal (name : String)
  deriving DecidableEq

/-- `Path::is_absolute`. -/
def isAbsolute (path : String) : Bool := startsWith path "/"

/-- The pieces of a path that name something. -/
def pieces (path : String) : List String :=
  (splitOn '/' path).filter fun piece => piece ≠ "" ∧ piece ≠ "."

def component (piece : String) : Component := if piece = ".." then .ParentDir else .Normal piece

/-- What a path starts with besides its pieces: the root, or a leading dot. -/
def lead (path : String) : List Component :=
  if isAbsolute path then [.RootDir]
  else if (splitOn '/' path).head? = some "." then [.CurDir]
  else []

/-- `Path::components`. -/
def components (path : String) : List Component := lead path ++ (pieces path).map component

/-- `Path::join`: an absolute path replaces the base, any other is appended to it. -/
def join (base path : String) : String :=
  if isAbsolute path then path
  else if base = "" ∨ base.toList.getLast? = some '/' then base ++ path
  else base ++ "/" ++ path

/-- The path names an entry of the directory itself. -/
def DirectlyInside (directory path : String) : Prop :=
  ∃ name, components path = components directory ++ [.Normal name]

/-! ### Joining -/

theorem isAbsolute_iff (path : String) : isAbsolute path = true ↔ path.toList.head? = some '/' := by
  rw [isAbsolute, startsWith, decide_eq_true_iff]
  cases path.toList with
  | nil => decide
  | cons char rest => simp [eq_comm]

/-- A joined path ends in the path that was joined. -/
theorem join_ends (base path : String) : ∃ front, join base path = front ++ path := by
  unfold join
  split
  · exact ⟨"", by rw [String.empty_append]⟩
  · split
    · exact ⟨base, rfl⟩
    · exact ⟨base ++ "/", rfl⟩

/-- Paths without a slash are joined to one base in different ways only. -/
theorem join_injective {base path other : String} (flat : '/' ∉ path.toList)
    (otherFlat : '/' ∉ other.toList) (same : join base path = join base other) : path = other := by
  have relative : ∀ {path : String}, '/' ∉ path.toList → isAbsolute path ≠ true :=
    fun flat absolute => flat (List.mem_of_mem_head? ((isAbsolute_iff _).mp absolute))
  rw [join, join, if_neg (relative flat), if_neg (relative otherFlat)] at same
  split at same
  · exact (append_left_inj ..).mp same
  · exact (append_left_inj ..).mp same

/-- The pieces of two texts with a slash between them. -/
theorem splitOn_slash (first second : List Char) :
    (first ++ '/' :: second).splitOn '/' = first.splitOn '/' ++ second.splitOn '/' :=
  List.splitOn_append_cons_self first second

/-- What a text starts with is decided before its first slash, or by that slash. -/
theorem lead_slash (front rest : List Char) :
    lead (String.ofList (front ++ '/' :: rest)) = lead (String.ofList (front ++ ['/'])) := by
  have absolute : isAbsolute (String.ofList (front ++ '/' :: rest)) =
      isAbsolute (String.ofList (front ++ ['/'])) := by
    rw [Bool.eq_iff_iff, isAbsolute_iff, isAbsolute_iff, String.toList_ofList,
      String.toList_ofList, List.head?_append, List.head?_append]
    rfl
  have first : ∀ rest, (splitOn '/' (String.ofList (front ++ '/' :: rest))).head? =
      (splitOn '/' (String.ofList front)).head? := by
    intro rest
    unfold splitOn
    rw [String.toList_ofList, String.toList_ofList, splitOn_slash, List.map_append,
      List.head?_append_of_ne_nil]
    simp
  unfold lead
  rw [absolute, first, first]

/-- A slash at the end of a text that is not empty does not change what it starts with. -/
theorem lead_trailing {base : String} (nonempty : base ≠ "") :
    lead (String.ofList (base.toList ++ ['/'])) = lead base := by
  have chars : base.toList ≠ [] := fun empty => nonempty (String.toList_inj.mp (empty.trans rfl))
  have absolute : isAbsolute (String.ofList (base.toList ++ ['/'])) = isAbsolute base := by
    rw [Bool.eq_iff_iff, isAbsolute_iff, isAbsolute_iff, String.toList_ofList,
      List.head?_append_of_ne_nil _ chars]
  have first : (splitOn '/' (String.ofList (base.toList ++ ['/']))).head? =
      (splitOn '/' base).head? := by
    unfold splitOn
    rw [String.toList_ofList, splitOn_slash, List.map_append, List.head?_append_of_ne_nil]
    simp
  unfold lead
  rw [absolute, first]

theorem pieces_append (front rest : List Char) :
    pieces (String.ofList (front ++ '/' :: rest)) =
      pieces (String.ofList front) ++ pieces (String.ofList rest) := by
  unfold pieces splitOn
  rw [String.toList_ofList, String.toList_ofList, String.toList_ofList, splitOn_slash,
    List.map_append, List.filter_append]

theorem pieces_trailing (front : List Char) :
    pieces (String.ofList (front ++ ['/'])) = pieces (String.ofList front) := by
  have empty : pieces (String.ofList []) = [] := by decide
  rw [pieces_append, empty, List.append_nil]

/-- A text behind a slash appends its pieces to the components of what is before it. -/
theorem components_slash (front rest : List Char) :
    components (String.ofList (front ++ '/' :: rest)) =
      components (String.ofList (front ++ ['/'])) ++
        (pieces (String.ofList rest)).map component := by
  unfold components
  rw [lead_slash, pieces_append, pieces_trailing, List.map_append, List.append_assoc]

theorem components_trailing {base : String} (nonempty : base ≠ "") :
    components (String.ofList (base.toList ++ ['/'])) = components base := by
  unfold components
  rw [lead_trailing nonempty, pieces_trailing, String.ofList_toList]

/-- A relative path appends its pieces to the components of the base. -/
theorem components_join {base : String} (nonempty : base ≠ "") {path : String}
    (relative : isAbsolute path = false) :
    components (join base path) = components base ++ (pieces path).map component := by
  unfold join
  rw [if_neg (by rw [relative]; decide)]
  split
  · rename_i ends
    have slash := List.dropLast_append_getLast? '/' (ends.resolve_left nonempty)
    have text : base ++ path = String.ofList (base.toList.dropLast ++ '/' :: path.toList) := by
      refine String.toList_inj.mp ?_
      rw [String.toList_append, String.toList_ofList]
      conv_lhs => rw [← slash, List.append_assoc, List.singleton_append]
    rw [text, components_slash, slash, String.ofList_toList, String.ofList_toList]
  · have text : base ++ "/" ++ path = String.ofList (base.toList ++ '/' :: path.toList) := by
      refine String.toList_inj.mp ?_
      rw [String.toList_append, String.toList_append, String.toList_ofList, List.append_assoc,
        String.toList_ofList, List.singleton_append]
    rw [text, components_slash, components_trailing nonempty, String.ofList_toList]

/-- Whether a path that is joined to a directory stays directly inside it. -/
def StaysIn (directory path : String) : Prop :=
  if isAbsolute path then DirectlyInside directory path
  else ∃ name, pieces path = [name] ∧ name ≠ ".."

/-- A path joined to a directory names an entry of that directory exactly when it is relative and
has one component, a name, or is absolute and names such an entry by itself. -/
theorem directlyInside_join_iff {directory : String} (nonempty : directory ≠ "") (path : String) :
    DirectlyInside directory (join directory path) ↔ StaysIn directory path := by
  unfold StaysIn
  split
  · rename_i absolute
    rw [join, if_pos absolute]
  · rename_i relative
    unfold DirectlyInside
    rw [components_join nonempty (Bool.not_eq_true _ ▸ relative)]
    constructor
    · rintro ⟨name, same⟩
      have one := List.append_cancel_left same
      obtain ⟨piece, only, isName⟩ := List.map_eq_singleton_iff.mp one
      refine ⟨piece, only, ?_⟩
      rintro rfl
      cases isName
    · rintro ⟨name, only, notParent⟩
      refine ⟨name, ?_⟩
      rw [only, List.map_singleton, component, if_neg notParent]

end Path
