/-
This file settles what recording in single atomics leaves out: when the calls have returned, the
counters are what the same calls make of them as one atomic action each, in any order.
-/

import Cicache.Statistics
import Cicache.Lib.Dues
import Cicache.Lib.Stages
import Cicache.Lib.Arrivals

namespace Cicache

open Text Interleaving

namespace Stats

/-- A counter of a summary. -/
def get (summary : Summary) : Counter → Nat
  | .requests => summary.requests
  | .hits => summary.hits
  | .misses => summary.misses
  | .stored => summary.stored
  | .passthrough => summary.passthrough
  | .errors => summary.errors
  | .bytes_from_cache => summary.bytes_from_cache
  | .bytes_from_network => summary.bytes_from_network
  | .bytes_uploaded => summary.bytes_uploaded
  | .entries_stored => summary.entries_stored
  | .packed => summary.packed
  | .packed_bytes => summary.packed_bytes
  | .uploads_failed => summary.uploads_failed
  | .upstream_millis => summary.upstream_millis

/-- A call as the one atomic action it stands for. -/
def Call.apply (summary : Summary) : Call → Summary
  | .record outcome _ _ bytes millis => summary.record outcome bytes.toNat millis.toNat
  | .record_upload bytes ok => summary.record_upload bytes.toNat ok
  | .record_packed objects bytes => summary.record_packed objects.toNat bytes.toNat
  | .summary => summary

/-- The calls that were made, in the order they were made in. -/
def calls : List (Event Nat Choice Call) → List Call
  | [] => []
  | .run _ _ :: rest => calls rest
  | .arrive _ call :: rest => call :: calls rest

/-- What an action adds to a counter. -/
def worth (counter : Counter) : Act → UInt64
  | .fetch_add other amount => if other = counter then amount else 0
  | _ => 0

/-- The actions that leave a counter alone or add to it. -/
def Adds (counter : Counter) (action : Act) : Prop := ∀ value, action ≠ .store counter value

/-- What a call adds to a counter. -/
def Call.adds (counter : Counter) (call : Call) : UInt64 :=
  UInt64.ofNat (get (call.apply .default) counter)

section Added

variable {counter : Counter}

theorem exec_worth (id : Nat) {action : Act} {choice : Choice} {before after : Stats}
    {answer : Answer action} (adds : Adds counter action)
    (result : exec id action choice before = some (answer, after)) :
    after.counters counter = before.counters counter + worth counter action := by
  cases action with
  | fetch_add other amount =>
    cases result
    by_cases same : other = counter
    · subst same
      rw [worth, if_pos rfl, set_self]
    · rw [worth, if_neg same, add_zero, set_of_ne (Ne.symm same)]
  | store other value =>
    cases result
    have different : counter ≠ other := by
      rintro rfl
      exact adds value rfl
    exact (set_of_ne different ..).trans (add_zero _).symm
  | _ =>
    simp only [exec] at result
    (repeat' split at result) <;> cases result <;> exact (add_zero _).symm

theorem write_all_within {allowed : Act → Prop} (writes : ∀ bytes, allowed (.write bytes))
    (bytes : Bytes) : (write_all bytes).Within allowed := by
  have rounds : ∀ rounds bytes, (write_rounds rounds bytes).Within allowed := by
    intro rounds
    induction rounds with
    | zero => exact fun _ => trivial
    | succ rounds inductionHypothesis =>
      intro bytes
      rw [write_rounds]
      split
      · exact trivial
      · refine .act (writes bytes) fun taken => ?_
        cases taken with
        | none => exact trivial
        | some count =>
          dsimp only
          split
          · exact trivial
          · exact inductionHypothesis _
  exact rounds _ _

theorem write_log_within {allowed : Act → Prop} (locks : allowed .lock)
    (writes : ∀ bytes, allowed (.write bytes)) (unlocks : allowed .unlock) (text : Bytes) :
    (write_log text).Within allowed := by
  refine .act locks fun there => ?_
  split
  · exact (write_all_within writes text).bind fun _ => ⟨unlocks, fun _ => trivial⟩
  · exact ⟨unlocks, fun _ => trivial⟩

/-- Additions, one after the other. -/
def adding : List (Counter × UInt64) → Task Unit
  | [] => return ()
  | (counter, amount) :: rest => do
    act (.fetch_add counter amount)
    adding rest

theorem adding_pays (additions : List (Counter × UInt64)) :
    (adding additions).Pays (Adds counter) (worth counter)
      (additions.map fun addition => worth counter (.fetch_add addition.1 addition.2)).sum := by
  induction additions with
  | nil => rfl
  | cons addition rest inductionHypothesis =>
    exact ⟨by rintro _ ⟨⟩, _, List.sum_cons, fun _ => inductionHypothesis⟩

/-- What a request adds. -/
def additions (bytes millis : UInt64) : Outcome → List (Counter × UInt64)
  | .Hit => [(.requests, 1), (.hits, 1), (.bytes_from_cache, bytes)]
  | .Stored =>
      [(.requests, 1), (.misses, 1), (.stored, 1), (.bytes_from_network, bytes),
        (.upstream_millis, millis)]
  | .Miss _ =>
      [(.requests, 1), (.misses, 1), (.bytes_from_network, bytes), (.upstream_millis, millis)]
  | .Pass _ => [(.requests, 1), (.passthrough, 1), (.bytes_from_network, bytes)]
  | .Error _ => [(.requests, 1), (.errors, 1)]

theorem count_eq (outcome : Outcome) (bytes millis : UInt64) :
    count outcome bytes millis = adding (additions bytes millis outcome) := by
  cases outcome <;> rfl

theorem count_pays (counter : Counter) (outcome : Outcome) (method url : String)
    (bytes millis : UInt64) : (count outcome bytes millis).Pays (Adds counter) (worth counter)
      ((Call.record outcome method url bytes millis).adds counter) := by
  have total : (Call.record outcome method url bytes millis).adds counter =
      ((additions bytes millis outcome).map fun addition =>
        worth counter (.fetch_add addition.1 addition.2)).sum := by
    cases outcome <;> cases counter <;>
      simp [additions, worth, Call.adds, Call.apply, get, Summary.record, Summary.default]
  rw [total, count_eq]
  exact adding_pays _

theorem record_upload_pays (counter : Counter) (bytes : UInt64) (ok : Bool) :
    (record_upload bytes ok).Pays (Adds counter) (worth counter)
      ((Call.record_upload bytes ok).adds counter) := by
  have total : (Call.record_upload bytes ok).adds counter =
      ((if ok then [(.entries_stored, 1), (.bytes_uploaded, bytes)] else [(.uploads_failed, 1)] :
          List (Counter × UInt64)).map fun addition =>
        worth counter (.fetch_add addition.1 addition.2)).sum := by
    cases ok <;> cases counter <;>
      simp [worth, Call.adds, Call.apply, get, Summary.record_upload, Summary.default]
  rw [total]
  cases ok
  · exact adding_pays [(.uploads_failed, 1)]
  · exact adding_pays [(.entries_stored, 1), (.bytes_uploaded, bytes)]

theorem summary_within {allowed : Act → Prop} (loads : ∀ counter, allowed (.load counter)) :
    summary.Within allowed := by
  unfold summary
  repeat refine .act (loads _) fun _ => ?_
  exact trivial

/-- Every call adds to a counter what its one action does. -/
theorem program_pays (human_bytes : UInt64 → String) (added : counter.added = true) (call : Call) :
    (program human_bytes call).Pays (Adds counter) (worth counter) (call.adds counter) := by
  have ends : (Program.finish none : Task Value).Pays (Adds counter) (worth counter) 0 := rfl
  cases call with
  | record outcome method url bytes millis =>
    have writes : (write_log (utf8 (line human_bytes outcome method url bytes millis))).Pays
        (Adds counter) (worth counter) 0 :=
      .of_within (write_log_within ⟨by rintro _ ⟨⟩, rfl⟩ (fun _ => ⟨by rintro _ ⟨⟩, rfl⟩)
        ⟨by rintro _ ⟨⟩, rfl⟩ _)
    have pays := ((count_pays counter outcome method url bytes millis).bind fun _ => writes).bind
      fun _ => ends
    rwa [add_zero, add_zero] at pays
  | record_upload bytes ok =>
    have pays := (record_upload_pays counter bytes ok).bind fun _ => ends
    rwa [add_zero] at pays
  | record_packed objects bytes =>
    have other : ∀ slot value, slot.added = false → Adds counter (.store slot value) := by
      rintro slot value stored _ ⟨⟩
      rw [added] at stored
      cases stored
    have nothing : (Call.record_packed objects bytes).adds counter = 0 := by
      cases counter <;> first | rfl | cases added
    rw [nothing]
    exact .of_within ⟨⟨other _ _ rfl, rfl⟩, fun _ => ⟨⟨other _ _ rfl, rfl⟩, fun _ => trivial⟩⟩
  | summary =>
    have nothing : Call.summary.adds counter = 0 := by cases counter <;> rfl
    rw [nothing]
    exact .of_within ((summary_within fun _ => ⟨by rintro _ ⟨⟩, rfl⟩).bind fun _ => trivial)

theorem get_apply (added : counter.added = true) (summary : Summary) (call : Call) :
    get (call.apply summary) counter = get summary counter + get (call.apply .default) counter := by
  cases call with
  | record outcome method url bytes millis =>
    cases outcome <;> cases counter <;> simp [Call.apply, Summary.record, Summary.default, get]
  | record_upload bytes ok =>
    cases ok <;> cases counter <;> simp [Call.apply, Summary.record_upload, Summary.default, get]
  | record_packed objects bytes =>
    cases counter <;> first | rfl | cases added
  | summary => cases counter <;> rfl

theorem get_foldl (added : counter.added = true) (made : List Call) (summary : Summary) :
    get (made.foldl Call.apply summary) counter =
      get summary counter + (made.map fun call => get (call.apply .default) counter).sum := by
  induction made generalizing summary with
  | nil => rfl
  | cons call rest inductionHypothesis =>
    rw [List.foldl_cons, inductionHypothesis, get_apply added summary call, List.map_cons,
      List.sum_cons, Nat.add_assoc]

/-- A sum that wraps around. -/
theorem toNat_brought (events : List (Event Nat Choice Call)) :
    (Machine.brought (Call.adds counter) events).toNat =
      ((calls events).map fun call => get (call.apply .default) counter).sum % 2 ^ 64 := by
  induction events with
  | nil => rfl
  | cons event rest inductionHypothesis =>
    cases event with
    | run id choice => exact inductionHypothesis
    | arrive id call =>
      rw [Machine.brought, UInt64.toNat_add, inductionHypothesis, calls, List.map_cons,
        List.sum_cons, Call.adds, UInt64.toNat_ofNat', ← Nat.add_mod]

/-- Once all calls have returned, a counter that is only added to is what their actions make it. -/
theorem added_counted (human_bytes : UInt64 → String) (added : counter.added = true)
    {log : Option Bytes} {events : List (Event Nat Choice Call)}
    {after : Config Act Answer Nat Stats Value}
    (ran : (machine human_bytes).run (opened log) events = some after)
    (returned : ∀ id program, after.tasks id = some program → ∃ value, program = .finish value) :
    (after.shared.counters counter).toNat =
      get ((calls events).foldl Call.apply .default) counter % 2 ^ 64 := by
  have indebted : Machine.Indebted (Adds counter) (worth counter) (fun _ => 0) (opened log) :=
    ⟨by rintro _ _ ⟨⟩, fun _ _ => rfl⟩
  have acts : ∀ id action choice before (answer : Answer action) shared, Adds counter action →
      (machine human_bytes).exec id action choice before = some (answer, shared) →
        shared.counters counter = before.counters counter + worth counter action :=
    fun id _ _ _ _ _ adds result => exec_worth id adds result
  have arrives : ∀ id call before program shared,
      (machine human_bytes).accept id call before = some (program, shared) →
        shared.counters counter = before.counters counter ∧
          program.Pays (Adds counter) (worth counter) (call.adds counter) := by
    rintro id call before _ _ ⟨⟩
    exact ⟨rfl, program_pays human_bytes added call⟩
  obtain ⟨due, still, total⟩ := Machine.paid_of_run ran acts (fun _ _ => rfl) arrives
    (fun event member => List.mem_toFinset.mpr (List.mem_map_of_mem (f := Event.task) member))
      indebted
  have settled : ∀ id, due id = 0 := by
    intro id
    cases task : after.tasks id with
    | none => exact still.absent id task
    | some program =>
      obtain ⟨value, rfl⟩ := returned id program task
      exact still.tasks id _ task
  have sum : after.shared.counters counter = Machine.brought (Call.adds counter) events := by
    rw [Finset.sum_congr rfl fun id _ => settled id, Finset.sum_const_zero, add_zero, add_zero]
      at total
    exact total.trans (zero_add _)
  have zero : get .default counter = 0 := by cases counter <;> rfl
  rw [sum, toNat_brought, get_foldl added, zero, Nat.zero_add]

end Added

section Stored

variable {counter : Counter}

/-- A counter behind an action. -/
def moves (counter : Counter) (now : UInt64) : Act → UInt64
  | .fetch_add other amount => if other = counter then now + amount else now
  | .store other value => if other = counter then value else now
  | _ => now

/-- What a call sets a counter to. -/
def Call.stores (counter : Counter) : Call → Option UInt64
  | .record_packed objects bytes =>
      match counter with
      | .packed => some objects
      | .packed_bytes => some bytes
      | _ => none
  | _ => none

/-- The call that sets the counters of the pack. -/
def Call.packs : Call → Bool
  | .record_packed _ _ => true
  | _ => false

theorem exec_moves (id : Nat) (action : Act) {choice : Choice} {before after : Stats}
    {answer : Answer action} (result : exec id action choice before = some (answer, after)) :
    after.counters counter = moves counter (before.counters counter) action := by
  cases action with
  | fetch_add other amount =>
    cases result
    by_cases same : other = counter
    · subst same
      rw [moves, if_pos rfl, set_self]
    · rw [moves, if_neg same, set_of_ne (Ne.symm same)]
  | store other value =>
    cases result
    by_cases same : other = counter
    · subst same
      rw [moves, if_pos rfl, set_self]
    · rw [moves, if_neg same, set_of_ne (Ne.symm same)]
  | _ =>
    simp only [exec] at result
    (repeat' split at result) <;> cases result <;> rfl

theorem foldl_still {Acc Item : Type} {next : Acc → Item → Acc} {items : List Item} {acc : Acc}
    (still : ∀ item ∈ items, next acc item = acc) : items.foldl next acc = acc := by
  induction items with
  | nil => rfl
  | cons item rest inductionHypothesis =>
    rw [List.foldl_cons, still item List.mem_cons_self]
    exact inductionHypothesis fun other member => still other (List.mem_cons_of_mem _ member)

/-- Where all that is ever set is one value, it is enough that it is set. -/
theorem foldl_settled {Acc Item : Type} {next : Acc → Item → Acc} {items : List Item} {value : Acc}
    (each : ∀ item ∈ items, (∀ acc, next acc item = acc) ∨ ∀ acc, next acc item = value)
    (settled : ∃ item ∈ items, ∀ acc, next acc item = value) (start : Acc) :
    items.foldl next start = value := by
  induction items generalizing start with
  | nil =>
    obtain ⟨item, member, -⟩ := settled
    cases member
  | cons item rest inductionHypothesis =>
    have later := fun other member => each other (List.mem_cons_of_mem item member)
    rw [List.foldl_cons]
    by_cases again : ∃ other ∈ rest, ∀ acc, next acc other = value
    · exact inductionHypothesis later again _
    · obtain ⟨first, member, sets⟩ := settled
      rcases List.mem_cons.mp member with rfl | behind
      · rw [sets]
        refine foldl_still fun other there => ?_
        rcases later other there with still | sets
        · exact still value
        · exact sets value
      · exact absurd ⟨first, behind, sets⟩ again

/-- An action of a call leaves the counter alone or sets it to what the call stores. -/
def Sets (counter : Counter) (call : Call) (action : Act) : Prop :=
  (∀ now, moves counter now action = now) ∨
    ∃ value, call.stores counter = some value ∧ ∀ now, moves counter now action = value

theorem adding_within {allowed : Act → Prop} {additions : List (Counter × UInt64)}
    (adds : ∀ addition ∈ additions, allowed (.fetch_add addition.1 addition.2)) :
    (adding additions).Within allowed := by
  induction additions with
  | nil => exact trivial
  | cons addition rest inductionHypothesis =>
    exact ⟨adds addition List.mem_cons_self,
      fun _ => inductionHypothesis fun other member => adds other (List.mem_cons_of_mem _ member)⟩

theorem added_of_mem_additions {bytes millis : UInt64} {outcome : Outcome}
    {addition : Counter × UInt64} (member : addition ∈ additions bytes millis outcome) :
    addition.1.added = true := by
  cases outcome <;> simp only [additions, List.mem_cons, List.not_mem_nil, or_false] at member <;>
    rcases member with rfl | rfl | rfl | rfl | rfl <;> rfl

theorem moves_added (packs : counter.added = false) {other : Counter} (added : other.added = true)
    (amount now : UInt64) : moves counter now (.fetch_add other amount) = now := by
  refine if_neg ?_
  rintro rfl
  rw [packs] at added
  cases added

theorem program_sets (human_bytes : UInt64 → String) (packs : counter.added = false) (call : Call) :
    (program human_bytes call).Within (Sets counter call) := by
  have adds : ∀ other amount, other.added = true → Sets counter call (.fetch_add other amount) :=
    fun _ _ added => Or.inl (moves_added packs added _)
  cases call with
  | record outcome method url bytes millis =>
    refine Program.Within.bind (Program.Within.bind ?_ fun _ => ?_) fun _ => trivial
    · rw [count_eq]
      exact adding_within fun addition member => adds _ _ (added_of_mem_additions member)
    · exact write_log_within (Or.inl fun _ => rfl) (fun _ => Or.inl fun _ => rfl)
        (Or.inl fun _ => rfl) _
  | record_upload bytes ok =>
    cases ok
    · exact ⟨adds _ _ rfl, fun _ => trivial⟩
    · exact ⟨adds _ _ rfl, fun _ => ⟨adds _ _ rfl, fun _ => trivial⟩⟩
  | record_packed objects bytes =>
    have stores : Sets counter (.record_packed objects bytes) (.store .packed objects) ∧
        Sets counter (.record_packed objects bytes) (.store .packed_bytes bytes) := by
      cases counter with
      | packed => exact ⟨Or.inr ⟨objects, rfl, fun _ => rfl⟩, Or.inl fun _ => rfl⟩
      | packed_bytes => exact ⟨Or.inl fun _ => rfl, Or.inr ⟨bytes, rfl, fun _ => rfl⟩⟩
      | _ => cases packs
    exact ⟨stores.1, fun _ => ⟨stores.2, fun _ => trivial⟩⟩
  | summary => exact (summary_within fun _ => Or.inl fun _ => rfl).bind fun _ => trivial

/-- A call that has returned has stored what it stores. -/
theorem exists_stored {human_bytes : UInt64 → String} {call : Call} {value : UInt64}
    (stores : call.stores counter = some value) {path : List (Done Act Answer)} {result : Value}
    (finishes : (program human_bytes call).Finishes path result) :
    ∃ done ∈ path, ∀ now, moves counter now done.action = value := by
  cases call with
  | record_packed objects bytes =>
    obtain ⟨_, _, rfl, later⟩ := (Program.finishes_perform ..).mp finishes
    obtain ⟨_, _, rfl, -⟩ := (Program.finishes_perform ..).mp later
    cases counter <;> cases stores
    · exact ⟨_, List.mem_cons_self, fun _ => rfl⟩
    · exact ⟨_, List.mem_cons_of_mem _ List.mem_cons_self, fun _ => rfl⟩
  | _ => cases stores

theorem mem_made {call : Call} {events : List (Event Nat Choice Call)} :
    call ∈ calls events ↔ ∃ id, .arrive id call ∈ events := by
  induction events with
  | nil => simp [calls]
  | cons event rest inductionHypothesis =>
    cases event with
    | run id choice => simp [calls, inductionHypothesis]
    | arrive id other => simp [calls, inductionHypothesis, exists_or]

theorem get_stored (packs : counter.added = false) (made : List Call) {summary : Summary}
    {now : UInt64} (same : get summary counter = now.toNat) :
    get (made.foldl Call.apply summary) counter =
      (made.foldl (fun now call => (call.stores counter).getD now) now).toNat := by
  induction made generalizing summary now with
  | nil => exact same
  | cons call rest inductionHypothesis =>
    refine inductionHypothesis ?_
    cases call with
    | record outcome method url bytes millis =>
      cases outcome <;> cases counter <;> first | exact same | cases packs
    | record_upload bytes ok =>
      cases ok <;> cases counter <;> first | exact same | cases packs
    | record_packed objects bytes => cases counter <;> first | rfl | cases packs
    | summary => exact same

theorem counters_history {human_bytes : UInt64 → String} {log : Option Bytes}
    {events : List (Event Nat Choice Call)} {after : Config Act Answer Nat Stats Value}
    (ran : (machine human_bytes).run (opened log) events = some after) (counter : Counter) :
    after.shared.counters counter = ((machine human_bytes).history (opened log) events).foldl
      (fun now entry => moves counter now entry.2.action) 0 := by
  have start : (opened log).shared.counters counter =
      [].foldl (fun now (entry : Nat × Done Act Answer) => moves counter now entry.2.action) 0 :=
        rfl
  refine Machine.history_preserves ran (fun past stats => stats.counters counter =
    past.foldl (fun now entry => moves counter now entry.2.action) 0) ?_ ?_ start
  · intro past id action choice before answer shared kept result
    rw [List.foldl_append, ← kept]
    exact exec_moves id action result
  · rintro past id call before _ _ kept ⟨⟩
    exact kept

theorem packs_of_stores {call : Call} {value : UInt64} (stores : call.stores counter = some value) :
    call.packs = true := by
  cases call <;> first | rfl | cases stores

/-- Every action of a history is one of a call. -/
theorem sets_of_mem_history {human_bytes : UInt64 → String} (packs : counter.added = false)
    {log : Option Bytes} {events : List (Event Nat Choice Call)}
    {after : Config Act Answer Nat Stats Value}
    (ran : (machine human_bytes).run (opened log) events = some after)
    {entry : Nat × Done Act Answer}
    (member : entry ∈ (machine human_bytes).history (opened log) events) :
    ∃ call, .arrive entry.1 call ∈ events ∧ Sets counter call entry.2.action := by
  have free : (opened log).tasks entry.1 = none := rfl
  rcases Machine.came_or ran (fun _ => rfl) free with ⟨-, nothing⟩ | ⟨call, rest, came⟩
  · exact absurd member (nothing entry.2)
  · obtain ⟨_, _, _, ⟨⟩, takes⟩ := came.takes
    exact ⟨call, came.arrived,
      takes.allowed (program_sets human_bytes packs call) _ (mem_pathOf.mpr member)⟩

/-- When all calls have returned and the pack was recorded once at most, its counters are what the
calls make of them. -/
theorem stored_counted (human_bytes : UInt64 → String) (packs : counter.added = false)
    {log : Option Bytes} {events : List (Event Nat Choice Call)}
    {after : Config Act Answer Nat Stats Value}
    (ran : (machine human_bytes).run (opened log) events = some after)
    (returned : ∀ id program, after.tasks id = some program → ∃ value, program = .finish value)
    (once : ∀ id other call also, .arrive id call ∈ events → .arrive other also ∈ events →
      call.packs = true → also.packs = true → id = other) :
    (after.shared.counters counter).toNat =
      get ((calls events).foldl Call.apply .default) counter % 2 ^ 64 := by
  have zero : get .default counter = (0 : UInt64).toNat := by cases counter <;> rfl
  rw [counters_history ran, get_stored packs _ zero, Nat.mod_eq_of_lt (UInt64.toNat_lt _)]
  congr 1
  by_cases packed : ∃ id call value, .arrive id call ∈ events ∧ call.stores counter = some value
  · obtain ⟨id, call, value, arrived, stores⟩ := packed
    have unique : ∀ other also, .arrive other also ∈ events → ∀ stored,
        also.stores counter = some stored → stored = value := by
      intro other also came stored stores'
      have same := once other id also call came arrived (packs_of_stores stores')
        (packs_of_stores stores)
      subst same
      rw [Machine.arrive_unique ran came arrived, stores, Option.some_inj] at stores'
      exact stores'.symm
    have called : (calls events).foldl (fun now call => (call.stores counter).getD now) 0 =
        value := by
      refine foldl_settled (fun also member => ?_)
        ⟨call, mem_made.mpr ⟨id, arrived⟩, fun now => by rw [stores, Option.getD_some]⟩ 0
      obtain ⟨other, came⟩ := mem_made.mp member
      cases stored : also.stores counter with
      | none => exact Or.inl fun now => Option.getD_none
      | some found => exact Or.inr fun now => unique other also came found stored
    rw [called]
    refine foldl_settled (fun entry member => ?_) ?_ 0
    · obtain ⟨also, came, still | ⟨stored, stores', sets⟩⟩ := sets_of_mem_history packs ran member
      · exact Or.inl still
      · exact Or.inr fun now => (sets now).trans (unique _ also came stored stores')
    · obtain ⟨rest, came⟩ := Machine.came_of_mem ran (fun _ => rfl) arrived
      obtain ⟨_, _, _, ⟨⟩, takes⟩ := came.takes
      obtain ⟨result, rfl⟩ := returned id rest came.task
      obtain ⟨done, member, sets⟩ := exists_stored stores takes
      exact ⟨(id, done), mem_pathOf.mp member, sets⟩
  · have none : ∀ id call, .arrive id call ∈ events → call.stores counter = none := by
      intro id call arrived
      cases stores : call.stores counter with
      | none => rfl
      | some value => exact absurd ⟨id, call, value, arrived, stores⟩ packed
    rw [foldl_still, foldl_still]
    · intro call member
      obtain ⟨id, arrived⟩ := mem_made.mp member
      rw [none id call arrived, Option.getD_none]
    · intro entry member
      obtain ⟨call, arrived, still | ⟨stored, stores, -⟩⟩ := sets_of_mem_history packs ran member
      · exact still 0
      · rw [none _ call arrived] at stores
        cases stores

end Stored

end Stats

end Cicache
