/-
This file models the absolute URLs a request is made for, as the `url` crate holds them once they
are parsed, and their text. The crate compares two URLs by their text; the last theorem says that
the text determines every component, so that a cache keyed on the text of a URL keys on the URL.
-/

import Cicache.Lib.Text

namespace Cicache

open Text

/-- A character that ends the authority of a URL. -/
def endsAuthority (char : Char) : Bool := char = '/' || char = '?' || char = '#'

/-- The host of a parsed URL: a name or an IPv4 address, which holds no colon, or an IPv6 address
in brackets. -/
def isHost (host : String) : Bool :=
  host.toList.all (fun char => !endsAuthority char && char != '@' && char != '[' && char != ']' &&
      char != ':') ||
    match host.toList with
    | '[' :: address =>
        (address.getLast? == some ']') &&
          address.dropLast.all fun char =>
            !endsAuthority char && char != '@' && char != '[' && char != ']'
    | _ => false

/-- A parsed absolute URL. No component holds a character that would end it in the text. A URL
without an authority (`mailto:` and the like) has no host; one whose authority is empty has the
empty host. -/
structure Url where
  scheme : String
  userinfo : Option String
  host : Option String
  port : Option UInt16
  path : String
  query : Option String
  fragment : Option String
  isScheme : ':' ∉ scheme.toList
  isUserinfo : ∀ text, userinfo = some text → ∀ char ∈ text.toList,
    endsAuthority char = false ∧ char ≠ '@'
  isHost : ∀ text, host = some text → isHost text = true ∧
    (path = "" ∨ path.toList.head? = some '/')
  noHost : host = none → userinfo = none ∧ port = none ∧ ¬ ['/', '/'] <+: path.toList
  isPath : '?' ∉ path.toList ∧ '#' ∉ path.toList
  isQuery : ∀ text, query = some text → '#' ∉ text.toList

namespace Url

/-- The port as it is written behind the host. -/
def portText (port : Option UInt16) : List Char :=
  match port with
  | some port => ':' :: (Nat.repr port.toNat).toList
  | none => []

/-- The user information as it is written before the host. -/
def userText (userinfo : Option String) : List Char :=
  match userinfo with
  | some text => text.toList ++ ['@']
  | none => []

/-- The part of the text between the scheme and the path: who is asked. -/
def authority (url : Url) : List Char :=
  match url.host with
  | some host => '/' :: '/' :: (userText url.userinfo ++ (host.toList ++ portText url.port))
  | none => []

/-- A component that is written behind its marker when it is there. -/
def marked (marker : Char) (component : Option String) : List Char :=
  match component with
  | some text => marker :: text.toList
  | none => []

/-- `Url::as_str`. -/
def as_str (url : Url) : String :=
  String.ofList (url.scheme.toList ++ ':' ::
    (url.authority ++ (url.path.toList ++ (marked '?' url.query ++ marked '#' url.fragment))))

/-- `Url::host_str().unwrap_or_default()`. -/
def host_str (url : Url) : String := url.host.getD ""

/-- `Url::set_fragment(None)`. -/
def dropFragment (url : Url) : Url := { url with fragment := none }

/-- `Url::set_port(None)`. -/
def dropPort (url : Url) : Url :=
  { url with port := none, noHost := fun bare => ⟨(url.noHost bare).1, rfl, (url.noHost bare).2.2⟩ }

/-! ### The text determines the components -/

/-- Two texts, each cut where the characters of one kind end, agree on both sides of the cut. -/
theorem cut_unique {Symbol : Type} (inside : Symbol → Prop)
    {first second rest tail : List Symbol}
    (firstInside : ∀ symbol ∈ first, inside symbol)
    (secondInside : ∀ symbol ∈ second, inside symbol)
    (restOutside : ∀ symbol, rest.head? = some symbol → ¬ inside symbol)
    (tailOutside : ∀ symbol, tail.head? = some symbol → ¬ inside symbol)
    (same : first ++ rest = second ++ tail) : first = second ∧ rest = tail := by
  induction first generalizing second with
  | nil =>
    cases second with
    | nil => exact ⟨rfl, same⟩
    | cons symbol others =>
      have head : rest.head? = some symbol := by
        rw [← List.nil_append rest, same]
        rfl
      exact absurd (secondInside symbol List.mem_cons_self) (restOutside symbol head)
  | cons symbol others inductionHypothesis =>
    cases second with
    | nil =>
      have head : tail.head? = some symbol := by
        rw [← List.nil_append tail, ← same]
        rfl
      exact absurd (firstInside symbol List.mem_cons_self) (tailOutside symbol head)
    | cons other more =>
      obtain ⟨heads, tails⟩ := List.cons.inj same
      obtain ⟨fronts, backs⟩ := inductionHypothesis
        (fun char member => firstInside char (List.mem_cons_of_mem _ member))
        (fun char member => secondInside char (List.mem_cons_of_mem _ member)) tails
      exact ⟨by rw [heads, fronts], backs⟩

theorem head_marked (marker : Char) (component : Option String) {char : Char}
    (head : (marked marker component).head? = some char) : char = marker := by
  cases component with
  | none => cases head
  | some text => exact (Option.some_inj.mp head).symm

theorem marked_injective (marker : Char) : Function.Injective (marked marker) := by
  intro first second same
  cases first with
  | none => cases second with
    | none => rfl
    | some other => cases same
  | some text => cases second with
    | none => cases same
    | some other => rw [String.toList_inj.mp (List.cons.inj same).2]

theorem isDigit_of_mem_port {port : UInt16} {char : Char}
    (member : char ∈ (Nat.repr port.toNat).toList) : char.isDigit = true := by
  rw [Nat.toList_repr] at member
  exact Nat.isDigit_of_mem_toDigits (by decide) (by decide) member

theorem portText_injective : Function.Injective portText := by
  intro first second same
  cases first with
  | none => cases second with
    | none => rfl
    | some other => cases same
  | some port => cases second with
    | none => cases same
    | some other =>
      have small : ∀ port : UInt16, port.toNat < 2 ^ 64 := fun port => by
        have below := port.toNat_lt
        omega
      have digits := String.toList_inj.mp (List.cons.inj same).2
      have numbers := (parseU64_repr (small port)).symm.trans
        (digits ▸ parseU64_repr (small other))
      rw [UInt16.toNat_inj.mp (Option.some_inj.mp numbers)]

/-- The characters of a host are those of a plain name, or an address between brackets. -/
theorem isHost_cases {host : String} (isHost : Cicache.isHost host = true) :
    (∀ char ∈ host.toList, endsAuthority char = false ∧ char ≠ '@' ∧ char ≠ '[' ∧ char ≠ ':') ∨
      ∃ address, host.toList = '[' :: (address ++ [']']) ∧
        ∀ char ∈ address, endsAuthority char = false ∧ char ≠ '@' ∧ char ≠ ']' := by
  rw [Cicache.isHost, Bool.or_eq_true] at isHost
  rcases isHost with plain | bracketed
  · refine Or.inl fun char member => ?_
    have allowed := List.all_eq_true.mp plain char member
    simp only [Bool.and_eq_true, Bool.not_eq_true', bne_iff_ne, ne_eq] at allowed
    exact ⟨allowed.1.1.1.1, allowed.1.1.1.2, allowed.1.1.2, allowed.2⟩
  · split at bracketed
    · rename_i address shape
      rw [Bool.and_eq_true, beq_iff_eq] at bracketed
      have ends := List.dropLast_append_getLast? ']' bracketed.1
      refine Or.inr ⟨address.dropLast, by rw [shape, ends], fun char member => ?_⟩
      have allowed := List.all_eq_true.mp bracketed.2 char member
      simp only [Bool.and_eq_true, Bool.not_eq_true', bne_iff_ne, ne_eq] at allowed
      exact ⟨allowed.1.1.1, allowed.1.1.2, allowed.2⟩
    · cases bracketed

/-- A plain name and its port never read like a bracketed address. -/
theorem plain_ne_bracketed {host : String} {port : Option UInt16} {rest : List Char}
    (plain : ∀ char ∈ host.toList, endsAuthority char = false ∧ char ≠ '@' ∧ char ≠ '[' ∧
      char ≠ ':') : host.toList ++ portText port ≠ '[' :: rest := by
  intro same
  cases name : host.toList with
  | cons char others =>
    rw [name] at same plain
    exact (plain char List.mem_cons_self).2.2.1 (List.cons.inj same).1
  | nil =>
    rw [name, List.nil_append] at same
    cases port with
    | none => cases same
    | some port => exact absurd (List.cons.inj same).1 (by decide)

/-- The host and the port together determine each of them. -/
theorem hostPort_unique {first second : String} {port other : Option UInt16}
    (firstHost : Cicache.isHost first = true) (secondHost : Cicache.isHost second = true)
    (same : first.toList ++ portText port = second.toList ++ portText other) :
    first = second ∧ port = other := by
  have portHead : ∀ (port : Option UInt16) (char : Char), (portText port).head? = some char →
      ¬ char ≠ ':' := by
    intro port char head
    cases port with
    | none => cases head
    | some port => exact not_not.mpr (Option.some_inj.mp head).symm
  rcases isHost_cases firstHost with plain | ⟨address, shape, inner⟩
  · rcases isHost_cases secondHost with otherPlain | ⟨otherAddress, otherShape, _⟩
    · obtain ⟨hosts, ports⟩ := cut_unique (fun char => char ≠ ':')
        (fun char member => (plain char member).2.2.2)
        (fun char member => (otherPlain char member).2.2.2) (portHead port) (portHead other) same
      exact ⟨String.toList_inj.mp hosts, portText_injective ports⟩
    · rw [otherShape, List.cons_append] at same
      exact absurd same (plain_ne_bracketed plain)
  · rcases isHost_cases secondHost with otherPlain | ⟨otherAddress, otherShape, otherInner⟩
    · rw [shape, List.cons_append] at same
      exact absurd same.symm (plain_ne_bracketed otherPlain)
    · rw [shape, otherShape] at same
      simp only [List.cons_append, List.append_assoc] at same
      obtain ⟨addresses, ports⟩ := split_at_first
        (fun member => (inner _ member).2.2 rfl) (fun member => (otherInner _ member).2.2 rfl)
        (List.cons.inj same).2
      exact ⟨String.toList_inj.mp (by rw [shape, otherShape, addresses]),
        portText_injective ports⟩

/-- The characters between the slashes and the path never end the authority. -/
theorem inside_authority (url : Url) {host : String} (named : url.host = some host) :
    ∀ char ∈ userText url.userinfo ++ (host.toList ++ portText url.port),
      endsAuthority char = false := by
  have digit : ∀ char : Char, char.isDigit = true → endsAuthority char = false := by
    intro char isDigit
    by_contra ends
    rw [Bool.not_eq_false, endsAuthority, Bool.or_eq_true, Bool.or_eq_true, decide_eq_true_iff,
      decide_eq_true_iff, decide_eq_true_iff] at ends
    rcases ends with (rfl | rfl) | rfl <;> exact absurd isDigit (by decide)
  intro char member
  rcases List.mem_append.mp member with user | host
  · cases shape : url.userinfo with
    | none => simp [shape, userText] at user
    | some text =>
      rw [shape] at user
      rcases List.mem_append.mp user with inText | last
      · exact (url.isUserinfo text shape char inText).1
      · rw [List.mem_singleton.mp last]
        decide
  · rcases List.mem_append.mp host with inHost | inPort
    · rcases isHost_cases (url.isHost _ named).1 with plain | ⟨address, shape, inner⟩
      · exact (plain char inHost).1
      · rw [shape, List.mem_cons, List.mem_append, List.mem_singleton] at inHost
        rcases inHost with rfl | inAddress | rfl
        · decide
        · exact (inner char inAddress).1
        · decide
    · cases shape : url.port with
      | none => simp [shape, portText] at inPort
      | some port =>
        rw [shape, portText, List.mem_cons] at inPort
        rcases inPort with rfl | inDigits
        · decide
        · exact digit char (isDigit_of_mem_port inDigits)

theorem noAt_hostPort (url : Url) {host : String} (named : url.host = some host) :
    '@' ∉ host.toList ++ portText url.port := by
  intro member
  rcases List.mem_append.mp member with inHost | inPort
  · rcases isHost_cases (url.isHost _ named).1 with plain | ⟨address, shape, inner⟩
    · exact (plain _ inHost).2.1 rfl
    · rw [shape, List.mem_cons, List.mem_append, List.mem_singleton] at inHost
      rcases inHost with bracket | inAddress | bracket
      · exact absurd bracket (by decide)
      · exact (inner _ inAddress).2.1 rfl
      · exact absurd bracket (by decide)
  · cases shape : url.port with
    | none => simp [shape, portText] at inPort
    | some port =>
      rw [shape, portText, List.mem_cons] at inPort
      rcases inPort with colon | inDigits
      · exact absurd colon (by decide)
      · exact absurd (isDigit_of_mem_port inDigits) (by decide)

/-- What stands between the slashes and the path determines the user information, the host and
the port. -/
theorem authority_unique {first second : Url} {host other : String}
    (firstNamed : first.host = some host) (secondNamed : second.host = some other)
    (same : userText first.userinfo ++ (host.toList ++ portText first.port) =
      userText second.userinfo ++ (other.toList ++ portText second.port)) :
    first.userinfo = second.userinfo ∧ host = other ∧ first.port = second.port := by
  have noUser : ∀ (url : Url) (text : String), url.userinfo = some text → '@' ∉ text.toList :=
    fun url text shape member => (url.isUserinfo text shape _ member).2 rfl
  have firstHost := (first.isHost _ firstNamed).1
  have secondHost := (second.isHost _ secondNamed).1
  cases firstUser : first.userinfo with
  | none =>
    cases secondUser : second.userinfo with
    | none =>
      rw [firstUser, secondUser] at same
      exact ⟨rfl, hostPort_unique firstHost secondHost same⟩
    | some text =>
      refine absurd ?_ (noAt_hostPort first firstNamed)
      rw [firstUser, secondUser, userText, userText, List.nil_append] at same
      rw [same]
      simp
  | some text =>
    cases secondUser : second.userinfo with
    | none =>
      refine absurd ?_ (noAt_hostPort second secondNamed)
      rw [firstUser, secondUser, userText, userText, List.nil_append] at same
      rw [← same]
      simp
    | some more =>
      rw [firstUser, secondUser, userText, userText, List.append_assoc, List.append_assoc,
        List.singleton_append, List.singleton_append] at same
      obtain ⟨users, rest⟩ := split_at_first (noUser first text firstUser)
        (noUser second more secondUser) same
      rw [String.toList_inj.mp users]
      exact ⟨rfl, hostPort_unique firstHost secondHost rest⟩

/-- The query and the fragment as they are written behind the path. -/
def tailText (url : Url) : List Char := marked '?' url.query ++ marked '#' url.fragment

theorem head_tailText (url : Url) {char : Char} (head : url.tailText.head? = some char) :
    char = '?' ∨ char = '#' := by
  unfold tailText at head
  cases query : url.query with
  | some text =>
    rw [query] at head
    exact Or.inl (head_marked '?' (some text) head)
  | none =>
    rw [query] at head
    exact Or.inr (head_marked '#' _ head)

/-- A URL without a host never reads like one with a host. -/
theorem bare_ne_slashes (url : Url) (bare : url.host = none) (rest : List Char) :
    url.path.toList ++ url.tailText ≠ '/' :: '/' :: rest := by
  intro same
  refine (url.noHost bare).2.2 ?_
  cases path : url.path.toList with
  | nil =>
    rw [path, List.nil_append] at same
    rcases head_tailText url (by rw [same]; rfl) with mark | mark
    · exact absurd mark (by decide)
    · exact absurd mark (by decide)
  | cons char more =>
    rw [path, List.cons_append] at same
    obtain ⟨slash, same⟩ := List.cons.inj same
    cases more with
    | nil =>
      rw [List.nil_append] at same
      rcases head_tailText url (by rw [same]; rfl) with mark | mark
      · exact absurd mark (by decide)
      · exact absurd mark (by decide)
    | cons other others =>
      rw [slash, (List.cons.inj same).1]
      exact ⟨others, rfl⟩

/-- The path, the query and the fragment together determine each of them. -/
theorem path_unique {first second : Url}
    (same : first.path.toList ++ first.tailText = second.path.toList ++ second.tailText) :
    first.path = second.path ∧ first.query = second.query ∧ first.fragment = second.fragment := by
  have inPath : ∀ (url : Url), ∀ char ∈ url.path.toList, char ≠ '?' ∧ char ≠ '#' := by
    intro url char member
    exact ⟨fun mark => url.isPath.1 (mark ▸ member), fun mark => url.isPath.2 (mark ▸ member)⟩
  have queryHead : ∀ (url : Url) (char : Char), url.tailText.head? = some char →
      ¬ (char ≠ '?' ∧ char ≠ '#') := by
    intro url char head inside
    rcases head_tailText url head with mark | mark
    · exact inside.1 mark
    · exact inside.2 mark
  obtain ⟨paths, rest⟩ := cut_unique (fun char => char ≠ '?' ∧ char ≠ '#')
    (inPath first) (inPath second) (queryHead first) (queryHead second) same
  have inQuery : ∀ (url : Url), ∀ char ∈ marked '?' url.query, char ≠ '#' := by
    intro url char member mark
    cases query : url.query with
    | none => simp [query, marked] at member
    | some text =>
      rw [query, marked, List.mem_cons, mark] at member
      rcases member with start | inText
      · exact absurd start (by decide)
      · exact url.isQuery text query inText
  have fragmentHead : ∀ (url : Url) (char : Char), (marked '#' url.fragment).head? = some char →
      ¬ char ≠ '#' := fun url char head => not_not.mpr (head_marked '#' _ head)
  obtain ⟨queries, fragments⟩ := cut_unique (fun char => char ≠ '#')
    (inQuery first) (inQuery second) (fragmentHead first) (fragmentHead second) rest
  exact ⟨String.toList_inj.mp paths, marked_injective '?' queries,
    marked_injective '#' fragments⟩

/-- The user information, the host and the port are determined by the text from the scheme on,
and so is what follows them. -/
theorem rest_unique {first second : Url}
    (same : first.authority ++ (first.path.toList ++ first.tailText) =
      second.authority ++ (second.path.toList ++ second.tailText)) :
    first.userinfo = second.userinfo ∧ first.host = second.host ∧ first.port = second.port ∧
      first.path.toList ++ first.tailText = second.path.toList ++ second.tailText := by
  have pathHead : ∀ (url : Url) (host : String), url.host = some host → ∀ char,
      (url.path.toList ++ url.tailText).head? = some char → ¬ endsAuthority char = false := by
    intro url host named char head
    rcases (url.isHost host named).2 with empty | slash
    · rw [empty] at head
      rcases head_tailText url head with rfl | rfl <;> decide
    · rw [List.head?_append, slash] at head
      rw [← Option.some_inj.mp head]
      decide
  unfold authority at same
  cases firstNamed : first.host with
  | none =>
    rw [firstNamed] at same
    cases secondNamed : second.host with
    | none =>
      rw [secondNamed] at same
      obtain ⟨firstUser, firstPort, _⟩ := first.noHost firstNamed
      obtain ⟨secondUser, secondPort, _⟩ := second.noHost secondNamed
      exact ⟨firstUser.trans secondUser.symm, rfl, firstPort.trans secondPort.symm, same⟩
    | some other =>
      rw [secondNamed] at same
      exact absurd same (bare_ne_slashes first firstNamed _)
  | some host =>
    rw [firstNamed] at same
    cases secondNamed : second.host with
    | none =>
      rw [secondNamed] at same
      exact absurd same.symm (bare_ne_slashes second secondNamed _)
    | some other =>
      rw [secondNamed] at same
      obtain ⟨authorities, rest⟩ := cut_unique (fun char => endsAuthority char = false)
        (inside_authority first firstNamed) (inside_authority second secondNamed)
        (pathHead first host firstNamed) (pathHead second other secondNamed)
        (List.cons.inj (List.cons.inj same).2).2
      obtain ⟨users, hosts, ports⟩ := authority_unique firstNamed secondNamed authorities
      exact ⟨users, congrArg some hosts, ports, rest⟩

/-- URLs with the same text are the same URL. -/
theorem as_str_injective : Function.Injective as_str := by
  intro first second same
  obtain ⟨schemes, rest⟩ := split_at_first first.isScheme second.isScheme
    (String.ofList_injective same)
  obtain ⟨users, hosts, ports, rest⟩ := rest_unique rest
  obtain ⟨paths, queries, fragments⟩ := path_unique rest
  have schemes := String.toList_inj.mp schemes
  cases first
  cases second
  simp only [Url.mk.injEq]
  exact ⟨schemes, users, hosts, ports, paths, queries, fragments⟩

end Url

end Cicache
