/-
This file is about the request log. When the calls have returned it holds their lines one behind the
other, in the order in which the calls took its mutex, each of them whole unless a write of it
failed.
-/

import Cicache.Counters

namespace Cicache

open Text Interleaving

namespace Stats

section Logged

/-- How the writing of a line goes: on, to a write that failed, or there is no log. -/
inductive Writing where
  | going
  | failed
  | unlogged

/-- Where a call is with respect to the mutex, and how much of its line it has written. -/
inductive Place where
  | outside
  | inside (written : Bytes) (writing : Writing)
  | left (written : Bytes) (writing : Writing)

namespace Place

def written : Place → Bytes
  | .outside => []
  | .inside written _ => written
  | .left written _ => written

def writing : Place → Writing
  | .outside => .going
  | .inside _ writing => writing
  | .left _ writing => writing

/-- The call holds the mutex. -/
def Inside : Place → Prop
  | .inside _ _ => True
  | _ => False

def next (place : Place) (done : Done Act Answer) : Place :=
  match place, done with
  | .outside, ⟨.lock, there⟩ => .inside [] (if there = true then .going else .unlogged)
  | .inside written .going, ⟨.write _, none⟩ => .inside written .failed
  | .inside written .going, ⟨.write bytes, some count⟩ =>
      .inside (written ++ bytes.take count) (if count = 0 then .failed else .going)
  | .inside written writing, ⟨.unlock, _⟩ => .left written writing
  | place, _ => place

end Place

/-- A call locks once, to write its line, writes what is left of the line as long as the writes do
not fail, and unlocks behind that. -/
def logging (lines : Nat → Option Bytes) : Stages Act Answer Nat Place where
  first := .outside
  next := Place.next
  allows id place
    | .lock => place = .outside ∧ (lines id).isSome = true
    | .write bytes =>
        ∃ written, place = .inside written .going ∧ lines id = some (written ++ bytes)
    | .unlock => ∃ written writing, place = .inside written writing ∧
        (writing = .going → lines id = some written)
    | _ => True

/-- Where a call is when it returns. -/
def Ends (lines : Nat → Option Bytes) (id : Nat) (place : Place) : Prop :=
  match lines id with
  | none => place = .outside
  | some line => ∃ written writing, place = .left written writing ∧
    (writing = .going → written = line)

variable {lines : Nat → Option Bytes} {id : Nat} {place : Place}

theorem rests_fetch_add (counter : Counter) (amount : UInt64) :
    (logging lines).Rests id place (.fetch_add counter amount) :=
  ⟨trivial, fun _ => by rcases place with _ | ⟨_, _ | _ | _⟩ | _ <;> rfl⟩

theorem rests_store (counter : Counter) (value : UInt64) :
    (logging lines).Rests id place (.store counter value) :=
  ⟨trivial, fun _ => by rcases place with _ | ⟨_, _ | _ | _⟩ | _ <;> rfl⟩

theorem rests_load (counter : Counter) : (logging lines).Rests id place (.load counter) :=
  ⟨trivial, fun _ => by rcases place with _ | ⟨_, _ | _ | _⟩ | _ <;> rfl⟩

/-- There are rounds enough to write all. -/
theorem write_rounds_follows {rounds : Nat} {written bytes : Bytes}
    (line : lines id = some (written ++ bytes)) (enough : bytes.length ≤ rounds) :
    (logging lines).Follows id (fun _ later => ∃ written writing, later = .inside written writing ∧
      (writing = .going → lines id = some written)) (write_rounds rounds bytes)
      (.inside written .going) := by
  induction rounds generalizing written bytes with
  | zero =>
    obtain rfl := List.eq_nil_of_length_eq_zero (Nat.le_zero.mp enough)
    rw [List.append_nil] at line
    exact ⟨written, .going, rfl, fun _ => line⟩
  | succ rounds inductionHypothesis =>
    rw [write_rounds]
    split
    · rename_i none
      rw [none, List.append_nil] at line
      exact ⟨written, .going, rfl, fun _ => line⟩
    · refine Stages.follows_act ⟨written, rfl, line⟩ fun taken => ?_
      cases taken with
      | none => exact ⟨written, .failed, rfl, by rintro ⟨⟩⟩
      | some count =>
        dsimp only
        by_cases zero : count = 0
        · rw [if_pos zero]
          refine ⟨written ++ bytes.take count, .failed, ?_, by rintro ⟨⟩⟩
          simp only [logging, Place.next, if_pos zero]
        · rw [if_neg zero]
          have place : (logging lines).next (.inside written .going) ⟨.write bytes, some count⟩ =
              .inside (written ++ bytes.take count) .going := by
            simp only [logging, Place.next, if_neg zero]
          rw [place]
          refine inductionHypothesis ?_ ?_
          · rw [List.append_assoc, List.take_append_drop]
            exact line
          · rw [List.length_drop]
            omega

theorem write_log_follows {text : Bytes} (line : lines id = some text) :
    (logging lines).Follows id (fun _ => Ends lines id) (write_log text) .outside := by
  have ends : ∀ {written writing}, (writing = .going → lines id = some written) →
      Ends lines id (.left written writing) := by
    intro written writing whole
    rw [Ends, line]
    refine ⟨written, writing, rfl, fun going => ?_⟩
    rw [whole going, Option.some_inj] at line
    exact line
  refine Stages.follows_act ⟨rfl, by rw [line]; rfl⟩ fun there => ?_
  cases there with
  | false => exact ⟨⟨[], .unlogged, rfl, by rintro ⟨⟩⟩, fun _ => ends (by rintro ⟨⟩)⟩
  | true =>
    refine Stages.follows_bind (write_rounds_follows line le_rfl) ?_
    rintro _ _ ⟨written, writing, rfl, whole⟩
    refine ⟨⟨written, writing, rfl, whole⟩, fun _ => ?_⟩
    have place : (logging lines).next (.inside written writing) ⟨.unlock, ()⟩ =
        .left written writing := by cases writing <;> rfl
    rw [place]
    exact ends whole

/-- What a call writes to the log. -/
def Call.line (human_bytes : UInt64 → String) : Call → Option Bytes
  | .record outcome method url bytes millis =>
      some (utf8 (Stats.line human_bytes outcome method url bytes millis))
  | _ => none

theorem program_follows (human_bytes : UInt64 → String) {call : Call}
    (line : lines id = call.line human_bytes) :
    (logging lines).Follows id (fun _ => Ends lines id) (program human_bytes call) .outside := by
  have unlogged : call.line human_bytes = none →
      (program human_bytes call).Within ((logging lines).Rests id .outside) →
      (logging lines).Follows id (fun _ => Ends lines id) (program human_bytes call) .outside := by
    intro none within
    refine (Stages.follows_of_within within).mono ?_
    rintro _ _ rfl
    rw [Ends, line, none]
  cases call with
  | record outcome method url bytes millis =>
    have counts : (count outcome bytes millis).Within ((logging lines).Rests id .outside) := by
      rw [count_eq]
      exact adding_within fun _ _ => rests_fetch_add ..
    have writes : (logging lines).Follows id (fun _ => Ends lines id)
        (record human_bytes outcome method url bytes millis) .outside := by
      refine Stages.follows_bind (Stages.follows_of_within counts) ?_
      rintro _ _ rfl
      exact write_log_follows line
    exact Stages.follows_bind writes fun _ _ ends => ends
  | record_upload bytes ok =>
    refine unlogged rfl ?_
    cases ok
    · exact ⟨rests_fetch_add .., fun _ => trivial⟩
    · exact ⟨rests_fetch_add .., fun _ => ⟨rests_fetch_add .., fun _ => trivial⟩⟩
  | record_packed objects bytes =>
    exact unlogged rfl ⟨rests_store .., fun _ => ⟨rests_store .., fun _ => trivial⟩⟩
  | summary => exact unlogged rfl ((summary_within fun _ => rests_load _).bind fun _ => trivial)

/-- Who takes the mutex with this action. -/
def locker : Nat × Done Act Answer → Option Nat
  | (id, ⟨.lock, _⟩) => some id
  | _ => none

/-- The calls that have taken the mutex, in the order in which they took it. -/
def lockers (history : List (Nat × Done Act Answer)) : List Nat := history.filterMap locker

theorem lockers_lock (history : List (Nat × Done Act Answer)) (id : Nat) (there : Bool) :
    lockers (history ++ [(id, ⟨.lock, there⟩)]) = lockers history ++ [id] :=
  List.filterMap_append

theorem lockers_of_ne (history : List (Nat × Done Act Answer)) (id : Nat) {done : Done Act Answer}
    (other : done.action ≠ .lock) : lockers (history ++ [(id, done)]) = lockers history := by
  obtain ⟨action, answer⟩ := done
  have none : locker (id, ⟨action, answer⟩) = none := by
    cases action with
    | lock => exact absurd rfl other
    | _ => rfl
  rw [lockers, List.filterMap_append, List.filterMap_cons_none none, List.filterMap_nil,
    List.append_nil]
  rfl

/-- The log holds what the calls have written, one behind the other in the order in which they
locked it; whoever holds the mutex is the last of them. -/
structure Written (log : Option Bytes) (lines : Nat → Option Bytes) (order : List Nat)
    (place : Nat → Place) (stats : Stats) : Prop where
  nodup : order.Nodup
  entered : ∀ id, id ∈ order ↔ place id ≠ .outside
  content : stats.log = log.map (· ++ order.flatMap fun id => (place id).written)
  holder : ∀ id, (place id).Inside → stats.locked = true ∧ ∃ front, order = front ++ [id]
  part : ∀ id line, lines id = some line → (place id).written <+: line
  logged : log.isSome = true → ∀ id, (place id).writing ≠ .unlogged

variable {log : Option Bytes} {order : List Nat} {places : Nat → Place} {stats shared : Stats}

theorem Written.lock (written : Written log lines order places stats)
    (outside : places id = .outside) (free : stats.locked = false) (writing : Writing)
    (there : log.isSome = true → writing ≠ .unlogged) :
    Written log lines (order ++ [id]) (Function.update places id (.inside [] writing))
      { stats with locked := true } := by
  have new : id ∉ order := fun member => (written.entered id).mp member outside
  have others : ∀ other, other ≠ id →
      Function.update places id (.inside [] writing) other = places other :=
    fun other different => Function.update_of_ne different ..
  have same : ∀ other, (Function.update places id (.inside [] writing) other).written =
      (places other).written := by
    intro other
    by_cases mine : other = id
    · rw [mine, Function.update_self, outside]
      rfl
    · rw [others other mine]
  constructor
  · exact List.nodup_append.mpr ⟨written.nodup, List.nodup_singleton id, by
      rintro other member _ (_ | ⟨_, ⟨⟩⟩) rfl
      exact new member⟩
  · intro other
    by_cases mine : other = id
    · subst mine
      simp
    · rw [others other mine, ← written.entered other]
      simp [mine]
  · have none : (places id).written = [] := by
      rw [outside]
      rfl
    simp only [same, written.content, List.flatMap_append, List.flatMap_singleton, none,
      List.append_nil]
  · intro other inside
    by_cases mine : other = id
    · exact ⟨rfl, order, by rw [mine]⟩
    · rw [others other mine] at inside
      have locked := (written.holder other inside).1
      rw [free] at locked
      cases locked
  · intro other line isLine
    rw [same]
    exact written.part other line isLine
  · intro isSome other
    by_cases mine : other = id
    · rw [mine, Function.update_self]
      exact there isSome
    · rw [others other mine]
      exact written.logged isSome other

/-- Only the holder of the mutex writes. -/
theorem Written.hold (written : Written log lines order places stats)
    (inside : (places id).Inside) {later : Place} (entered : later ≠ .outside) (taken : Bytes)
    (grown : later.written = (places id).written ++ taken)
    (logs : shared.log = stats.log.map (· ++ taken)) (locked : later.Inside → shared.locked = true)
    (part : ∀ line, lines id = some line → later.written <+: line)
    (there : log.isSome = true → later.writing ≠ .unlogged) :
    Written log lines order (Function.update places id later) shared := by
  obtain ⟨-, front, last⟩ := written.holder id inside
  have others : ∀ other, other ≠ id → Function.update places id later other = places other :=
    fun other different => Function.update_of_ne different ..
  have before : ∀ other ∈ front, other ≠ id := by
    rintro other member rfl
    have nodup := written.nodup
    rw [last] at nodup
    exact (List.nodup_append.mp nodup).2.2 other member other List.mem_cons_self rfl
  constructor
  · exact written.nodup
  · intro other
    by_cases mine : other = id
    · subst mine
      rw [Function.update_self, last]
      simp [entered]
    · rw [others other mine]
      exact written.entered other
  · have kept : (front.flatMap fun other => (Function.update places id later other).written) =
        front.flatMap fun other => (places other).written :=
      List.flatMap_congr fun other member => by rw [others other (before other member)]
    rw [logs, written.content, Option.map_map, last]
    congr 1
    funext bytes
    simp only [Function.comp_apply, List.flatMap_append, kept, List.flatMap_singleton,
      Function.update_self, grown, List.append_assoc]
  · intro other holds
    by_cases mine : other = id
    · rw [mine, Function.update_self] at holds
      exact ⟨locked holds, front, by rw [mine, last]⟩
    · rw [others other mine] at holds
      obtain ⟨-, also, end_also⟩ := written.holder other holds
      rw [last] at end_also
      exact absurd (List.append_inj_right' end_also rfl) (by simp [Ne.symm mine])
  · intro other line isLine
    by_cases mine : other = id
    · subst mine
      rw [Function.update_self]
      exact part line isLine
    · rw [others other mine]
      exact written.part other line isLine
  · intro isSome other
    by_cases mine : other = id
    · rw [mine, Function.update_self]
      exact there isSome
    · rw [others other mine]
      exact written.logged isSome other

theorem Written.quiet (written : Written log lines order places stats)
    (logs : shared.log = stats.log) (locked : shared.locked = stats.locked) :
    Written log lines order places shared where
  nodup := written.nodup
  entered := written.entered
  content := logs.trans written.content
  holder := by
    rw [locked]
    exact written.holder
  part := written.part
  logged := written.logged

/-- An action that a call's place allows keeps the log in order. -/
theorem Written.step {past : List (Nat × Done Act Answer)}
    (written : Written log lines (lockers past) places stats) {action : Act} {choice : Choice}
    {answer : Answer action} (allowed : (logging lines).allows id (places id) action)
    (result : exec id action choice stats = some (answer, shared)) :
    Written log lines (lockers (past ++ [(id, ⟨action, answer⟩)]))
      (Function.update places id ((places id).next ⟨action, answer⟩)) shared := by
  have quiet : action ≠ .lock → (places id).next ⟨action, answer⟩ = places id →
      shared.log = stats.log → shared.locked = stats.locked →
      Written log lines (lockers (past ++ [(id, ⟨action, answer⟩)]))
        (Function.update places id ((places id).next ⟨action, answer⟩)) shared := by
    intro other same logs locked
    rw [same, Function.update_eq_self, lockers_of_ne past id other]
    exact written.quiet logs locked
  cases action with
  | fetch_add counter amount =>
    have rests : (logging lines).Rests id (places id) (.fetch_add counter amount) :=
      rests_fetch_add ..
    cases result
    exact quiet (by rintro ⟨⟩) (rests.2 ()) rfl rfl
  | store counter value =>
    have rests : (logging lines).Rests id (places id) (.store counter value) := rests_store ..
    cases result
    exact quiet (by rintro ⟨⟩) (rests.2 ()) rfl rfl
  | load counter =>
    have rests : (logging lines).Rests id (places id) (.load counter) := rests_load ..
    cases result
    exact quiet (by rintro ⟨⟩) (rests.2 _) rfl rfl
  | lock =>
    obtain ⟨outside, -⟩ := allowed
    simp only [exec] at result
    split at result
    · cases result
    · rename_i free
      cases result
      rw [Bool.not_eq_true] at free
      rw [outside, lockers_lock]
      refine written.lock outside free _ fun isSome => ?_
      rw [written.content, Option.isSome_map, isSome, if_pos rfl]
      rintro ⟨⟩
  | write bytes =>
    obtain ⟨begun, inside, line⟩ := allowed
    have holds : (places id).Inside := by
      rw [inside]
      trivial
    have locked := (written.holder id holds).1
    rw [inside, lockers_of_ne past id (by rintro ⟨⟩)]
    cases choice with
    | quiet => cases result
    | took count =>
      cases count with
      | none =>
        cases result
        refine written.hold holds (by rintro ⟨⟩) [] ?_ ?_ (fun _ => locked) ?_ (by rintro _ ⟨⟩)
        · rw [inside, List.append_nil]
          rfl
        · simp
        · intro whole isLine
          rw [line, Option.some_inj] at isLine
          exact ⟨bytes, isLine⟩
      | some count =>
        simp only [exec] at result
        split at result
        · cases result
          refine written.hold holds (by rintro ⟨⟩) (bytes.take count) ?_ rfl (fun _ => locked) ?_ ?_
          · rw [inside]
            rfl
          · intro whole isLine
            rw [line, Option.some_inj] at isLine
            rw [← isLine]
            exact (List.prefix_append_right_inj _).mpr (List.take_prefix ..)
          · intro _
            simp only [Place.next, Place.writing]
            split <;> rintro ⟨⟩
        · cases result
  | unlock =>
    obtain ⟨begun, writing, inside, -⟩ := allowed
    have holds : (places id).Inside := by
      rw [inside]
      trivial
    have leaves : (places id).next ⟨.unlock, answer⟩ = .left begun writing := by
      rw [inside]
      cases writing <;> rfl
    cases result
    rw [leaves, lockers_of_ne past id (by rintro ⟨⟩)]
    refine written.hold holds (by rintro ⟨⟩) [] ?_ ?_ (by rintro ⟨⟩) ?_ ?_
    · rw [inside, List.append_nil]
      rfl
    · simp
    · intro whole isLine
      have part := written.part id whole isLine
      rw [inside] at part
      exact part
    · intro isSome
      have there := written.logged isSome id
      rw [inside] at there
      exact there

end Logged

section Summed

/-- A write to the log that stops the writing of its line. -/
def Fails (done : Done Act Answer) : Prop :=
  ∃ bytes, done = ⟨.write bytes, none⟩ ∨ done = ⟨.write bytes, some 0⟩

instance : DecidablePred Fails
  | ⟨.write bytes, none⟩ => isTrue ⟨bytes, Or.inl rfl⟩
  | ⟨.write bytes, some 0⟩ => isTrue ⟨bytes, Or.inr rfl⟩
  | ⟨.write _, some (_ + 1)⟩ => isFalse (by rintro ⟨_, same | same⟩ <;> cases same)
  | ⟨.fetch_add .., _⟩ => isFalse (by rintro ⟨_, same | same⟩ <;> cases same)
  | ⟨.store .., _⟩ => isFalse (by rintro ⟨_, same | same⟩ <;> cases same)
  | ⟨.load _, _⟩ => isFalse (by rintro ⟨_, same | same⟩ <;> cases same)
  | ⟨.lock, _⟩ => isFalse (by rintro ⟨_, same | same⟩ <;> cases same)
  | ⟨.unlock, _⟩ => isFalse (by rintro ⟨_, same | same⟩ <;> cases same)

/-- Only a write that fails makes a line's writing fail. -/
theorem failed_of_next {place : Place} {done : Done Act Answer}
    (failed : (place.next done).writing = .failed) : place.writing = .failed ∨ Fails done := by
  obtain ⟨action, answer⟩ := done
  cases place with
  | outside =>
    cases action with
    | lock => cases answer <;> cases failed
    | _ => cases failed
  | left written writing => exact Or.inl failed
  | inside written writing =>
    cases writing with
    | failed => exact Or.inl rfl
    | unlogged => cases action <;> cases failed
    | going =>
      cases action with
      | write bytes =>
        cases answer with
        | none => exact Or.inr ⟨bytes, Or.inl rfl⟩
        | some count =>
          refine Or.inr ⟨bytes, Or.inr ?_⟩
          simp only [Place.next, Place.writing] at failed
          split at failed
          · rename_i zero
            rw [zero]
          · cases failed
      | _ => cases failed

variable {human_bytes : UInt64 → String} {log : Option Bytes}
variable {events : List (Event Nat Choice Call)}
variable {after : Config Act Answer Nat Stats Value} {lines : Nat → Option Bytes}

/-- Where the calls are at the end of a run. -/
def reached (human_bytes : UInt64 → String) (log : Option Bytes) (lines : Nat → Option Bytes)
    (events : List (Event Nat Choice Call)) : Nat → Place :=
  (logging lines).along (fun _ => .outside) ((machine human_bytes).history (opened log) events)

/-- At the end of a run the log is in order, and the calls are where their actions led them. -/
theorem written_of_run (ran : (machine human_bytes).run (opened log) events = some after)
    (isLine : ∀ id call, .arrive id call ∈ events → lines id = call.line human_bytes) :
    Staged (logging lines) (fun id _ => Ends lines id)
    (reached human_bytes log lines events) after ∧
      Written log lines (lockers ((machine human_bytes).history (opened log) events))
        (reached human_bytes log lines events) after.shared ∧
      ∀ id, (logging lines).Lawful id .outside
        (pathOf id ((machine human_bytes).history (opened log) events)) := by
  have start : Written log lines (lockers []) (fun _ => .outside) (opened log).shared :=
    ⟨List.nodup_nil, fun id => by simp [lockers], by simp [opened, lockers],
      fun id inside => inside.elim, fun id line _ => List.nil_prefix, fun _ id => by rintro ⟨⟩⟩
  have staged : Staged (logging lines) (fun id _ => Ends lines id) (fun _ => .outside)
      (opened log) :=
    ⟨by rintro id program ⟨⟩, fun _ _ => rfl⟩
  refine Staged.run_past
    (fun past places config => Written log lines (lockers past) places config.shared)
    ?_ ?_ ?_ ran staged [] start
  · intro past places config id choice action next answer shared written _ allowed result
    exact written.step allowed result
  · rintro past places config id value program _ _ ⟨⟩
  · rintro past places config id call _ _ written arrived _ ⟨⟩
    exact ⟨program_follows human_bytes (isLine id call arrived), written⟩

/-- A call that has returned has written its line, as far as no write of it failed. -/
theorem piece_of_returned {order : List Nat} {stats : Stats} {id : Nat} {line : Bytes}
    (written : Written log lines order (reached human_bytes log lines events) stats)
    (lawful : (logging lines).Lawful id .outside
      (pathOf id ((machine human_bytes).history (opened log) events)))
    (isLine : lines id = some line) (ends : Ends lines id (reached human_bytes log lines events id))
    (isSome : log.isSome = true)
    (unfailing : ∀ done, (id, done) ∈ (machine human_bytes).history (opened log) events →
      ¬ Fails done) : (reached human_bytes log lines events id).written = line := by
  rw [Ends, isLine] at ends
  obtain ⟨text, writing, left, whole⟩ := ends
  cases writing with
  | going => exact (congrArg Place.written left).trans (whole rfl)
  | failed =>
    rcases lawful.entered (fun place => place.writing = .failed) Fails
      (fun _ _ _ failed => failed_of_next failed) (congrArg Place.writing left) with
        ⟨⟨⟩⟩ | ⟨done, member, fails⟩
    exact absurd fails (unfailing done (mem_pathOf.mp member))
  | unlogged => exact absurd (congrArg Place.writing left) (written.logged isSome id)

/-- What the log holds when all calls have returned. -/
theorem pieces_of_run (ran : (machine human_bytes).run (opened log) events = some after)
    (returned : ∀ id program, after.tasks id = some program → ∃ value, program = .finish value) :
    ∃ (order : List Nat) (piece : Nat → Bytes),
      order = lockers ((machine human_bytes).history (opened log) events) ∧ order.Nodup ∧
      after.shared.log = log.map (· ++ order.flatMap piece) ∧
      (∀ id, id ∈ order ↔
        ∃ call line, .arrive id call ∈ events ∧ call.line human_bytes = some line) ∧
      ∀ id call line, .arrive id call ∈ events → call.line human_bytes = some line →
        piece id <+: line ∧ (log.isSome = true →
          (∀ done, (id, done) ∈ (machine human_bytes).history (opened log) events → ¬ Fails done) →
          piece id = line) := by
  obtain ⟨arrivals, isArrival⟩ := Machine.exists_arrivals ran
  let lines := fun id => (arrivals id).bind (Call.line human_bytes)
  have isLine : ∀ id call, .arrive id call ∈ events → lines id = call.line human_bytes :=
    fun id call arrived => congrArg (·.bind (Call.line human_bytes)) (isArrival id call arrived)
  obtain ⟨staged, written, lawful⟩ := written_of_run ran isLine
  have ended : ∀ id call, .arrive id call ∈ events →
      Ends lines id (reached human_bytes log lines events id) := by
    intro id call arrived
    obtain ⟨rest, came⟩ := Machine.came_of_mem ran (fun _ => rfl) arrived
    obtain ⟨value, rfl⟩ := returned id rest came.task
    exact staged.tasks id _ came.task
  refine ⟨_, fun id => (reached human_bytes log lines events id).written, rfl, written.nodup,
    written.content, fun id => ?_, fun id call line arrived line_eq => ?_⟩
  · rw [written.entered id]
    constructor
    · intro entered
      have free : (opened log).tasks id = none := rfl
      rcases Machine.came_or ran (fun _ => rfl) free with ⟨none, -⟩ | ⟨call, rest, came⟩
      · exact absurd (staged.absent id none) entered
      · cases line : call.line human_bytes with
        | some text => exact ⟨call, text, came.arrived, line⟩
        | none =>
          have ends := ended id call came.arrived
          rw [Ends, isLine id call came.arrived, line] at ends
          exact absurd ends entered
    · rintro ⟨call, line, arrived, line_eq⟩ outside
      have ends := ended id call arrived
      rw [Ends, isLine id call arrived, line_eq] at ends
      obtain ⟨_, _, left, -⟩ := ends
      rw [outside] at left
      cases left
  · have isLine := (isLine id call arrived).trans line_eq
    exact ⟨written.part id line isLine,
      piece_of_returned written (lawful id) isLine (ended id call arrived)⟩

/-- Once all calls have returned, every counter is what the calls make of it when each is one atomic
action, and the log holds the lines of the recorded requests one behind the other, in the order in
which their calls took the mutex, each of them whole if no write of it failed. -/
theorem sums_up (human_bytes : UInt64 → String) {log : Option Bytes}
    {events : List (Event Nat Choice Call)} {after : Config Act Answer Nat Stats Value}
    (ran : (machine human_bytes).run (opened log) events = some after)
    (returned : ∀ id program, after.tasks id = some program → ∃ value, program = .finish value)
    (once : ∀ id other call also, .arrive id call ∈ events → .arrive other also ∈ events →
      call.packs = true → also.packs = true → id = other) :
    (∀ counter, (after.shared.counters counter).toNat =
      get ((calls events).foldl Call.apply .default) counter % 2 ^ 64) ∧
    ∃ (order : List Nat) (piece : Nat → Bytes),
      order = lockers ((machine human_bytes).history (opened log) events) ∧ order.Nodup ∧
      after.shared.log = log.map (· ++ order.flatMap piece) ∧
      (∀ id, id ∈ order ↔
        ∃ call line, .arrive id call ∈ events ∧ call.line human_bytes = some line) ∧
      ∀ id call line, .arrive id call ∈ events → call.line human_bytes = some line →
        piece id <+: line ∧ (log.isSome = true →
          (∀ done, (id, done) ∈ (machine human_bytes).history (opened log) events → ¬ Fails done) →
          piece id = line) := by
  refine ⟨fun counter => ?_, pieces_of_run ran returned⟩
  cases added : counter.added with
  | true => exact added_counted human_bytes added ran returned
  | false => exact stored_counted human_bytes added ran returned once

end Summed

/-- Sizes below a kilobyte are rendered like this. -/
def litBytes (bytes : UInt64) : String := Nat.repr bytes.toNat ++ " B"

/-- Two requests are recorded at once while the pack is recorded too. The line of the second waits
for that of the first, which takes two writes; then a write of it fails. -/
def summedEvents : List (Event Nat Choice Call) :=
  [.arrive 0 (.record .Hit "GET" "/a" 5 7), .arrive 1 (.record (.Pass "POST") "POST" "/b" 3 9),
    .arrive 2 (.record_packed 4 8), .run 0 .quiet, .run 1 .quiet, .run 1 .quiet, .run 0 .quiet,
    .run 2 .quiet, .run 0 .quiet, .run 1 .quiet, .run 0 .quiet, .run 0 (.took (some 40)),
    .run 2 .quiet, .run 0 (.took (some 21)), .run 0 .quiet, .run 1 .quiet, .run 1 (.took (some 5)),
    .run 1 (.took none), .run 1 .quiet]

theorem summedEvents_arrivals {id : Nat} {call : Call} (arrived : .arrive id call ∈ summedEvents) :
    (id = 0 ∧ call = .record .Hit "GET" "/a" 5 7) ∨
      (id = 1 ∧ call = .record (.Pass "POST") "POST" "/b" 3 9) ∨
        (id = 2 ∧ call = .record_packed 4 8) := by
  simpa [summedEvents] using arrived

theorem summedEvents_once (id other : Nat) (call also : Call)
    (came : .arrive id call ∈ summedEvents)
    (again : .arrive other also ∈ summedEvents) (packs : call.packs = true)
    (repacks : also.packs = true) : id = other := by
  have packer : ∀ {id call}, .arrive id call ∈ summedEvents → call.packs = true → id = 2 := by
    intro id call arrived packs
    rcases summedEvents_arrivals arrived with ⟨-, rfl⟩ | ⟨-, rfl⟩ | ⟨rfl, -⟩
    · cases packs
    · cases packs
    · rfl
  exact (packer came packs).trans (packer again repacks).symm

theorem summedEvents_returned {after : Config Act Answer Nat Stats Value}
    (ran : (machine litBytes).run (opened (some [])) summedEvents = some after)
    (finished : ∀ id, id = 0 ∨ id = 1 ∨ id = 2 → ∃ value, after.tasks id = some (.finish value))
    (id : Nat) (program : Task Value) (task : after.tasks id = some program) :
    ∃ value, program = .finish value := by
  have free : (opened (some [])).tasks id = none := rfl
  rcases Machine.came_or ran (fun _ => rfl) free with ⟨absent, -⟩ | ⟨call, rest, came⟩
  · rw [task] at absent
    cases absent
  · obtain ⟨value, there⟩ := finished id
      ((summedEvents_arrivals came.arrived).imp And.left fun rest => rest.imp And.left And.left)
    rw [task, Option.some_inj] at there
    exact ⟨value, there⟩

set_option maxRecDepth 8000 in
theorem sums_up_summed : ∃ (after : Config Act Answer Nat Stats Value) (order : List Nat)
    (piece : Nat → Bytes), (machine litBytes).run (opened (some [])) summedEvents = some after ∧
      (∀ counter, (after.shared.counters counter).toNat =
        get ((calls summedEvents).foldl Call.apply .default) counter % 2 ^ 64) ∧
      order = [0, 1] ∧ after.shared.log = some ([] ++ order.flatMap piece) ∧
      piece 0 = utf8 (line litBytes .Hit "GET" "/a" 5 7) ∧
      piece 1 <+: utf8 (line litBytes (.Pass "POST") "POST" "/b" 3 9) := by
  have ran : (machine litBytes).run (opened (some [])) summedEvents = some _ := rfl
  obtain ⟨counted, order, piece, locked, -, log, -, pieces⟩ := sums_up litBytes ran
    (summedEvents_returned ran (by rintro _ (rfl | rfl | rfl) <;> exact ⟨_, rfl⟩)) summedEvents_once
  have unfailing : ∀ step ∈ (machine litBytes).history (opened (some [])) summedEvents,
      step.1 = 0 → ¬ Fails step.2 := by decide +kernel
  exact ⟨_, order, piece, ran, counted, locked, log,
    (pieces 0 _ _ List.mem_cons_self rfl).2 rfl
      fun done member => unfailing (0, done) member rfl,
    (pieces 1 _ _ (List.mem_cons_of_mem _ List.mem_cons_self) rfl).1⟩

end Stats

end Cicache
