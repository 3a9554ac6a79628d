/-
This file settles whether the entries of two scopes are kept apart. A job files its manifest and
its pack under the key prefix, the kind, its scope, a time stamp and the run, joined by hyphens,
and finds the newest of them by the front part of such a key. The kinds are kept apart, since
neither is the beginning of the other. The scopes are not, since a scope may hold hyphens: what
one scope looks for is then also the beginning of what another one files.
-/

import Cicache.Gha

namespace Cicache

open Text GhaCache

/-! ### The kinds and the scopes -/

/-- The kinds of entries a scope has. -/
def KINDS : List String := ["index", "pack"]

/-- What is filed under the other scope is found by this one: the other scope goes on behind this
one with a hyphen, or this one is the other with the time stamp behind it, or with the time stamp
and a front part of the run. -/
def Confusable (scope other : String) (stamp : Nat) (run : String) : Prop :=
  startsWith other (scope ++ "-") = true ∨
    scope = other ++ "-" ++ Nat.repr stamp ∨
    ∃ front, scope = other ++ "-" ++ Nat.repr stamp ++ "-" ++ front ∧
      startsWith run (front ++ "-") = true

theorem ne_of_confusable {scope other : String} {stamp : Nat} {run : String}
    (confusable : Confusable scope other stamp run) : scope ≠ other := by
  rintro rfl
  have longer : ∀ more : List Char, scope.toList ≠ scope.toList ++ '-' :: more := by
    intro more same
    exact absurd (List.self_eq_append_right.mp same) (List.cons_ne_nil _ _)
  rcases confusable with starts | whole | ⟨front, whole, _⟩
  · obtain ⟨rest, whole⟩ := (startsWith_iff _ _).mp starts
    refine longer rest.toList ?_
    nth_rewrite 1 [whole]
    simp
  · refine longer (Nat.repr stamp).toList ?_
    nth_rewrite 1 [whole]
    simp
  · refine longer ((Nat.repr stamp).toList ++ '-' :: front.toList) ?_
    nth_rewrite 1 [whole]
    simp

/-- Within one kind, an entry is found under its own scope and where the scopes are confusable. -/
theorem same_kind_found_iff (kind key_prefix scope other : String) (stamp : Nat) (run : String) :
    startsWith (scoped_key key_prefix other kind stamp run)
        ( scoped_prefix key_prefix scope kind) = true ↔
      scope = other ∨ Confusable scope other stamp run := by
  have parts : startsWith (scoped_key key_prefix other kind stamp run)
        ( scoped_prefix key_prefix scope kind) = true ↔
      scope.toList ++ ['-'] <+:
        other.toList ++ '-' :: ((Nat.repr stamp).toList ++ '-' :: run.toList) := by
    simp only [startsWith, decide_eq_true_iff, scoped_key, scoped_prefix, String.toList_append,
      List.append_assoc, List.prefix_append_right_inj]
    rfl
  rw [parts, part_prefix_iff, ← String.toList_inj]
  refine or_congr Iff.rfl (or_congr ?_ ?_)
  · rw [startsWith, decide_eq_true_iff, String.toList_append]
    rfl
  constructor
  · rintro ⟨more, whole, starts⟩
    rcases (part_prefix_iff _ _ _).mp starts with rfl | inside | ⟨front, rfl, starts⟩
    · refine Or.inl (String.toList_inj.mp ?_)
      simpa using whole
    · exact absurd (inside.subset (List.mem_append_right _ List.mem_cons_self))
        (hyphen_not_mem_repr stamp)
    · refine Or.inr ⟨String.ofList front, String.toList_inj.mp ?_, decide_eq_true ?_⟩
      · simpa using whole
      · simpa using starts
  · rintro (rfl | ⟨front, rfl, starts⟩)
    · exact ⟨(Nat.repr stamp).toList, by simp, run.toList, by simp⟩
    · refine ⟨(Nat.repr stamp).toList ++ '-' :: front.toList, by simp, ?_⟩
      rw [startsWith, decide_eq_true_iff, String.toList_append] at starts
      rw [List.append_assoc, List.cons_append, List.prefix_append_right_inj,
        List.cons_prefix_cons]
      exact ⟨rfl, starts⟩

/-- An entry of the other kind is never found. -/
theorem other_kind_not_found {kind key_prefix other_kind scope other : String} {stamp : Nat}
    {run : String} (isKind : kind ∈ KINDS) (isOther : other_kind ∈ KINDS)
    (differ : kind ≠ other_kind) :
    startsWith (scoped_key key_prefix other other_kind stamp run)
      ( scoped_prefix key_prefix scope kind) = false := by
  refine decide_eq_false ?_
  simp only [scoped_key, scoped_prefix, String.toList_append, List.append_assoc,
    List.prefix_append_right_inj]
  simp only [KINDS, List.mem_cons, List.not_mem_nil, or_false] at isKind isOther
  rcases isKind with rfl | rfl <;> rcases isOther with rfl | rfl
  · exact absurd rfl differ
  · exact fun starts => absurd (List.cons_prefix_cons.mp starts).1 (by decide)
  · exact fun starts => absurd (List.cons_prefix_cons.mp starts).1 (by decide)
  · exact absurd rfl differ

/-- What is found under a scope and kind was filed under that scope and kind, exactly when the kind
is another one or the scopes cannot be taken for each other. -/
theorem found_in_own_scope_iff {kind key_prefix other_kind scope other : String} {stamp : Nat}
    {run : String} (isKind : kind ∈ KINDS) (isOther : other_kind ∈ KINDS) :
    (startsWith (scoped_key key_prefix other other_kind stamp run)
        ( scoped_prefix key_prefix scope kind) = true → scope = other ∧ kind = other_kind) ↔
      (kind = other_kind → ¬ Confusable scope other stamp run) := by
  by_cases same : kind = other_kind
  · subst same
    rw [same_kind_found_iff]
    constructor
    · intro apart _ confusable
      exact ne_of_confusable confusable (apart (Or.inr confusable)).1
    · rintro apart (own | confusable)
      · exact ⟨own, rfl⟩
      · exact absurd confusable (apart rfl)
  · rw [other_kind_not_found isKind isOther same]
    exact iff_of_true nofun fun equal => absurd equal same

/-- The default scopes of one job on two runners are apart. -/
theorem found_in_own_scope_iff_runners :
    ((startsWith (scoped_key "cicache-v1" "build-Linux-ARM64" "index" 1700000000 "42")
        ( scoped_prefix "cicache-v1" "build-Linux-X64" "index") = true →
        "build-Linux-X64" = "build-Linux-ARM64" ∧ "index" = "index") ↔
      ("index" = "index" → ¬ Confusable "build-Linux-X64" "build-Linux-ARM64" 1700000000 "42")) ∧
    ¬ Confusable "build-Linux-X64" "build-Linux-ARM64" 1700000000 "42" := by
  refine ⟨found_in_own_scope_iff (by decide) (by decide), ?_⟩
  rintro (starts | whole | ⟨front, whole, _⟩)
  · exact absurd starts (by decide)
  · exact absurd whole (by decide)
  · have starts : startsWith "build-Linux-X64" "build-Linux-ARM64-" = true := by
      rw [whole, startsWith_iff]
      exact ⟨Nat.repr 1700000000 ++ "-" ++ front, by simp [String.append_assoc]⟩
    exact absurd starts (by decide)

/-- A job of the custom scope `build` finds what the job `build` filed under its default scope. -/
theorem foreign_manifest_found :
    ¬ ∀ key_prefix, ∀ kind ∈ KINDS, ∀ other_kind ∈ KINDS, ∀ scope other stamp run,
      startsWith (scoped_key key_prefix other other_kind stamp run)
        ( scoped_prefix key_prefix scope kind) = true → scope = other ∧ kind = other_kind := by
  intro apart
  have found : startsWith (scoped_key "cicache-v1" "build-Linux-X64" "index" 1700000000 "42")
      ( scoped_prefix "cicache-v1" "build" "index") = true := by decide
  have same := apart "cicache-v1" "index" (by decide) "index" (by decide) "build"
    "build-Linux-X64" 1700000000 "42" found
  exact absurd same.1 (by decide)

end Cicache
