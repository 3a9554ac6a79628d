/-
This file models command lines of long options. An option occurs with its name alone, or with a
value behind an equals sign, or with a value in the next token. The next token is no value when it
starts with a hyphen, for then it is an option itself; a lone hyphen may go either way.

Occurrences that are written with their values in tokens of their own are read back when each of
these tokens can be a value, and are refused otherwise.
-/

import Cicache.Lib.Text

namespace CommandLine

open Text

/-! ### Options -/

/-- An option as it occurs, with its value when it has one. -/
structure Occurrence where
  name : String
  value : Option String
  deriving DecidableEq

/-- The options of a command, and whether they take a value. -/
abbrev Options := List (String × Bool)

/-- The option is one of the command's. -/
structure Occurrence.Listed (options : Options) (occurrence : Occurrence) : Prop where
  declared : options.lookup occurrence.name = some occurrence.value.isSome
  plain : '=' ∉ occurrence.name.toList

/-- The option in tokens, with its value in a token of its own. -/
def Occurrence.tokens (occurrence : Occurrence) : List String :=
  ("--" ++ occurrence.name) :: occurrence.value.toList

/-- The token can be the value of the option before it, where `lone` says whether a lone hyphen
can. -/
def isValue (lone : Bool) (token : String) : Bool := !startsWith token "-" || (lone && token = "-")

/-- Every value can be the token behind its option. -/
def Spoken (lone : Bool) (occurrences : List Occurrence) : Prop :=
  ∀ occurrence ∈ occurrences, ∀ value, occurrence.value = some value → isValue lone value = true

theorem isValue_of_not_mem {lone : Bool} {token : String} (free : '-' ∉ token.toList) :
    isValue lone token = true := by
  have other : startsWith token "-" = false := by
    refine Bool.eq_false_iff.mpr fun starts => ?_
    exact free ((of_decide_eq_true starts).subset List.mem_cons_self)
  rw [isValue, other]
  rfl

/-! ### Reading the settings -/

/-- The values that an option occurs with. -/
def values (name : String) (occurrences : List Occurrence) : List String :=
  occurrences.filterMap fun occurrence => if occurrence.name = name then occurrence.value else none

/-- How often an option occurs. -/
def times (name : String) (occurrences : List Occurrence) : Nat :=
  occurrences.countP fun occurrence => occurrence.name = name

@[simp] theorem values_nil (name : String) : values name [] = [] := rfl

@[simp] theorem values_append (name : String) (front back : List Occurrence) :
    values name (front ++ back) = values name front ++ values name back := List.filterMap_append

@[simp] theorem times_append (name : String) (front back : List Occurrence) :
    times name (front ++ back) = times name front + times name back := List.countP_append

/-- The value of an option that may occur once, and its default. -/
def setting {Setting : Type} (parse : String → Option Setting) (default : Setting) (name : String)
    (occurrences : List Occurrence) : Option Setting :=
  match values name occurrences with
  | [] => some default
  | [text] => parse text
  | _ => none

/-- The value of an option that may occur once and has no default. -/
def optional {Setting : Type} (parse : String → Option Setting) (name : String)
    (occurrences : List Occurrence) : Option (Option Setting) :=
  setting (fun text => (parse text).map some) none name occurrences

/-- Whether an option without a value occurs, which it may do once. -/
def flag (name : String) (occurrences : List Occurrence) : Option Bool :=
  match times name occurrences with
  | 0 => some false
  | 1 => some true
  | _ => none

/-- The values of an option that may occur often, with several values at a time. -/
def delimited {Setting : Type} (parse : String → Option Setting) (default : List Setting)
    (name : String) (occurrences : List Occurrence) : Option (List Setting) :=
  match values name occurrences with
  | [] => some default
  | texts => (texts.flatMap (splitOn ',')).mapM parse

theorem setting_of_values {Setting : Type} {parse : String → Option Setting} {default : Setting}
    {name text : String} {occurrences : List Occurrence} (told : values name occurrences = [text]) :
    setting parse default name occurrences = parse text := by
  rw [setting, told]

/-- A flag that is written when it is set is read as it was. -/
theorem flag_of_times {name : String} {occurrences : List Occurrence} {is : Bool}
    (told : times name occurrences = if is = true then 1 else 0) :
    flag name occurrences = some is := by
  rw [flag, told]
  cases is <;> rfl

section Delimited

variable {Setting : Type} {parse : String → Option Setting} {default : List Setting} {name : String}
variable {occurrences : List Occurrence}

/-- Settings are the default, or what the pieces between the commas of the values stand for. -/
theorem delimited_cases {settings : List Setting}
    (given : delimited parse default name occurrences = some settings) :
    settings = default ∨ ∃ text texts,
      ((text :: texts).flatMap (splitOn ',')).mapM parse = some settings := by
  unfold delimited at given
  cases found : values name occurrences with
  | nil =>
    rw [found] at given
    exact Or.inl (Option.some_inj.mp given).symm
  | cons text texts =>
    rw [found] at given
    exact Or.inr ⟨text, texts, given⟩

theorem delimited_ne_nil {settings : List Setting} (nonempty : default ≠ [])
    (given : delimited parse default name occurrences = some settings) : settings ≠ [] := by
  rcases delimited_cases given with rfl | ⟨text, texts, parsed⟩
  · exact nonempty
  · rintro rfl
    obtain ⟨part, more, split⟩ := List.exists_cons_of_ne_nil (splitOn_ne_nil ',' text)
    rw [List.flatMap_cons, split, List.cons_append, List.mapM_cons] at parsed
    simp [Option.bind_eq_some_iff] at parsed

theorem mapM_some {Element : Type} (elements : List Element) :
    elements.mapM Option.some = some elements := by
  induction elements with
  | nil => rfl
  | cons element others inductionHypothesis =>
    rw [List.mapM_cons, inductionHypothesis]
    rfl

/-- Values that are taken as they are hold no comma. -/
theorem delimited_free {defaults parts : List String}
    (free : ∀ part ∈ defaults, ',' ∉ part.toList)
    (given : delimited Option.some defaults name occurrences = some parts) :
    ∀ part ∈ parts, ',' ∉ part.toList := by
  rcases delimited_cases given with rfl | ⟨text, texts, parsed⟩
  · exact free
  · rw [mapM_some, Option.some_inj] at parsed
    subst parsed
    intro part member
    obtain ⟨whole, -, inside⟩ := List.mem_flatMap.mp member
    exact not_mem_of_mem_splitOn inside

/-- Values that are joined with commas are read one by one. -/
theorem delimited_join {parts : List String} (joined : values name occurrences = [join ',' parts])
    (nonempty : parts ≠ []) (free : ∀ part ∈ parts, ',' ∉ part.toList) :
    delimited parse default name occurrences = parts.mapM parse := by
  rw [delimited, joined]
  show (List.flatMap (splitOn ',') [join ',' parts]).mapM parse = parts.mapM parse
  rw [List.flatMap_singleton, splitOn_join nonempty free]

end Delimited

/-- What is printed and then parsed is there again, part by part. -/
theorem mapM_parse {Setting : Type} {parse : String → Option Setting} {print : Setting → String}
    (round : ∀ setting, parse (print setting) = some setting) (settings : List Setting) :
    (settings.map print).mapM parse = some settings := by
  induction settings with
  | nil => rfl
  | cons setting others inductionHypothesis =>
    rw [List.map_cons, List.mapM_cons, round, inductionHypothesis]
    rfl

/-! ### Reading the tokens -/

/-- The name in a token, and the value behind an equals sign. -/
def cut (body : String) : String × Option String :=
  match body.toList.dropWhile (· ≠ '=') with
  | [] => (body, none)
  | _ :: value => (String.ofList (body.toList.takeWhile (· ≠ '=')), some (String.ofList value))

/-- The occurrences that tokens stand for, when all of them are options of the command. The pending
option is one whose value comes next. -/
def read (options : Options) (lone : Bool) : Option String → List String →
    Option (List Occurrence)
  | none, [] => some []
  | some _, [] => none
  | some name, value :: rest =>
      if isValue lone value = true then
        (read options lone none rest).map (⟨name, some value⟩ :: ·)
      else none
  | none, token :: rest =>
      match (stripPrefix token "--").map cut with
      | none => none
      | some (name, some value) =>
          if options.lookup name = some true then
            (read options lone none rest).map (⟨name, some value⟩ :: ·)
          else none
      | some (name, none) =>
          match options.lookup name with
          | none => none
          | some false => (read options lone none rest).map (⟨name, none⟩ :: ·)
          | some true => read options lone (some name) rest

theorem cut_plain {name : String} (plain : '=' ∉ name.toList) : cut name = (name, none) := by
  have whole : name.toList.dropWhile (· ≠ '=') = [] := by
    refine List.dropWhile_eq_nil_iff.mpr fun char member => decide_eq_true ?_
    rintro rfl
    exact plain member
  rw [cut, whole]

theorem stripPrefix_append (front back : String) :
    stripPrefix (front ++ back) front = some back := by
  rw [stripPrefix, if_pos, String.toList_append, List.drop_left, String.ofList_toList]
  exact decide_eq_true (by rw [String.toList_append]; exact List.prefix_append _ _)

section Read

variable {options : Options} {lone : Bool} {occurrence : Occurrence}

theorem strip_token (listed : occurrence.Listed options) :
    (stripPrefix ("--" ++ occurrence.name) "--").map cut = some (occurrence.name, none) := by
  rw [stripPrefix_append, Option.map_some, cut_plain listed.plain]

/-- An option is read when its value can be the token behind it. -/
theorem read_cons (listed : occurrence.Listed options)
    (spoken : ∀ value, occurrence.value = some value → isValue lone value = true)
    (rest : List String) : read options lone none (occurrence.tokens ++ rest) =
      (read options lone none rest).map (occurrence :: ·) := by
  have body := strip_token listed
  have declared := listed.declared
  obtain ⟨name, value⟩ := occurrence
  cases value with
  | none =>
    show read options lone none (("--" ++ name) :: rest) = _
    simp only [read, body, declared, Option.isSome_none]
  | some value =>
    show read options lone none (("--" ++ name) :: value :: rest) = _
    simp only [read, body, declared, Option.isSome_some, if_pos (spoken value rfl)]

/-- An option whose value cannot be the token behind it is refused. -/
theorem read_cons_unspoken (listed : occurrence.Listed options) {value : String}
    (has : occurrence.value = some value) (unspoken : isValue lone value = false)
    (rest : List String) : read options lone none (occurrence.tokens ++ rest) = none := by
  have body := strip_token listed
  have declared := listed.declared
  obtain ⟨name, _⟩ := occurrence
  subst has
  show read options lone none (("--" ++ name) :: value :: rest) = none
  simp only [read, body, declared, Option.isSome_some, unspoken, Bool.false_eq_true, if_false]

theorem read_tokens {occurrences : List Occurrence}
    (listed : ∀ occurrence ∈ occurrences, occurrence.Listed options)
    (spoken : Spoken lone occurrences) :
    read options lone none (occurrences.flatMap Occurrence.tokens) = some occurrences := by
  induction occurrences with
  | nil => rfl
  | cons occurrence others inductionHypothesis =>
    rw [List.forall_mem_cons] at listed
    rw [Spoken, List.forall_mem_cons] at spoken
    rw [List.flatMap_cons, read_cons listed.1 spoken.1, inductionHypothesis listed.2 spoken.2]
    rfl

theorem read_unspoken {occurrences : List Occurrence}
    (listed : ∀ occurrence ∈ occurrences, occurrence.Listed options)
    (unspoken : ¬ Spoken lone occurrences) :
    read options lone none (occurrences.flatMap Occurrence.tokens) = none := by
  induction occurrences with
  | nil => exact absurd (fun _ none => absurd none List.not_mem_nil) unspoken
  | cons occurrence others inductionHypothesis =>
    rw [List.forall_mem_cons] at listed
    rw [List.flatMap_cons]
    by_cases now : ∀ value, occurrence.value = some value → isValue lone value = true
    · have later : ¬ Spoken lone others := by
        intro spoken
        refine unspoken ?_
        rw [Spoken, List.forall_mem_cons]
        exact ⟨now, spoken⟩
      rw [read_cons listed.1 now, inductionHypothesis listed.2 later]
      rfl
    · obtain ⟨value, has, other⟩ : ∃ value, occurrence.value = some value ∧
          isValue lone value = false := by
        simpa using now
      exact read_cons_unspoken listed.1 has other _

end Read

end CommandLine
