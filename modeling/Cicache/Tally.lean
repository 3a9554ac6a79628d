/-
This file settles what the uploads of a job leave behind when the upload loop has ended: the index,
its flag and the counters of the uploads, each of them a function of what `gha.put` returned for
which key. The order in which the uploads ended is not among what they depend on.
-/

import Cicache.Index
import Cicache.Outcomes
import Cicache.Uploads
import Mathlib.Data.Finset.Sort
import Mathlib.Data.Set.Card
import Mathlib.Data.String.Basic

namespace Cicache

open Text Interleaving Program

namespace Delivery

/-! ### The path of one upload -/

/-- What an upload does once its key is to be in the index. -/
def adds (key : String) (added : Bool) : List (Done Act Answer) :=
  ⟨.insert .index key, added⟩ ::
    if added = true then [⟨.store .index_dirty, ()⟩, ⟨.drop_permit, ()⟩] else [⟨.drop_permit, ()⟩]

/-- What an upload does with what `gha.put` returned. -/
def settles (key : String) (bytes : Bytes) (added : Bool) :
    Except String Bool → List (Done Act Answer)
  | .ok true => ⟨.record_upload bytes.length true, ()⟩ :: adds key added
  | .ok false => adds key added
  | .error _ => [⟨.record_upload 0 false, ()⟩, ⟨.drop_permit, ()⟩]

section Path

variable {crates : Crates} {gha : GhaCache} {key : String} {bytes : Bytes}
variable {path : List (Done Act Answer)} {value : Value}

theorem adds_finishes (ends : (do
    if ← act (.insert .index key) then
      act (.store .index_dirty)
      act .drop_permit
    else act .drop_permit : Task Unit).Finishes path ()) : ∃ added, path = adds key added := by
  obtain ⟨added, rest, rfl, later⟩ := (finishes_act ..).mp ends
  refine ⟨added, ?_⟩
  cases added with
  | false =>
    obtain ⟨_, tail, rfl, drops⟩ := (finishes_perform ..).mp later
    obtain ⟨rfl, _⟩ := (finishes_finish ..).mp drops
    rfl
  | true =>
    obtain ⟨_, tail, rfl, drops⟩ := (finishes_act ..).mp later
    obtain ⟨_, tail, rfl, done⟩ := (finishes_perform ..).mp drops
    obtain ⟨rfl, _⟩ := (finishes_finish ..).mp done
    rfl

/-- An upload puts its object and settles what it got back. -/
theorem upload_finishes
    (ends : (yields (Store.upload crates gha key bytes) fun _ => .done).Finishes path value) :
    ∃ front result added, path = front ++ settles key bytes added result ∧
      (gha.put crates key bytes).Finishes front result := by
  obtain ⟨whole, _, nothing, rfl, uploads, last⟩ := (finishes_bind ..).mp ends
  obtain ⟨rfl, _⟩ := (finishes_finish ..).mp last
  rw [List.append_nil]
  obtain ⟨front, result, back, rfl, puts, rest⟩ := (finishes_bind ..).mp uploads
  rcases result with err | (_ | _)
  · obtain ⟨_, tail, rfl, drops⟩ := (finishes_act ..).mp rest
    obtain ⟨_, tail, rfl, done⟩ := (finishes_perform ..).mp drops
    obtain ⟨rfl, _⟩ := (finishes_finish ..).mp done
    exact ⟨front, _, true, rfl, puts⟩
  · obtain ⟨added, rfl⟩ := adds_finishes rest
    exact ⟨front, _, added, rfl, puts⟩
  · obtain ⟨_, tail, rfl, more⟩ := (finishes_act ..).mp rest
    obtain ⟨added, rfl⟩ := adds_finishes more
    exact ⟨front, _, added, rfl, puts⟩

end Path

section Run

variable {crates : Crates} {proxy : Proxy} {gha : GhaCache} {world : World}
variable {events : List (Event TaskId Choice Arrival)}
variable {after : Config Act Answer TaskId World Value}

/-- What `gha.put` returned in an upload of the key with these bytes. -/
def Returned (crates : Crates) (proxy : Proxy) (gha : GhaCache) (world : World)
    (events : List (Event TaskId Choice Arrival)) (config : Config Act Answer TaskId World Value)
    (number : Nat) (key : String) (bytes : Bytes) (result : Except String Bool) : Prop :=
  (number, key, bytes) ∈ config.shared.spawned ∧ ∃ front back,
    pathOf (.upload number) (history crates proxy world events) = front ++ back ∧
    (gha.put crates key bytes).Finishes front result

/-- A number stands for one upload. -/
theorem Delivers.spawned_unique (delivers : Delivers crates proxy world events after)
    {number : Nat}
    {item other : Item} (one : (number, item) ∈ after.shared.spawned)
    (two : (number, other) ∈ after.shared.spawned) : item = other := by
  have nodup : (after.shared.spawned.map Prod.fst).Nodup := by
    rw [delivers.delivering.drained.numbers]
    exact List.nodup_range
  exact (Prod.mk.inj (List.inj_on_of_nodup_map nodup one two rfl)).2

theorem upload_settled (client : proxy.store.gha = some gha)
    (ran : (Job.machine crates proxy).run (Job.idle proxy world) events = some after)
    (delivers : Delivers crates proxy world events after) {number : Nat} {key : String}
    {bytes : Bytes} (spawned : (number, key, bytes) ∈ after.shared.spawned) {value : Value}
    (ended : after.tasks (.upload number) = some (.finish value)) :
    ∃ front added result, pathOf (.upload number) (history crates proxy world events) =
        front ++ settles key bytes added result ∧
      (gha.put crates key bytes).Finishes front result := by
  rcases Machine.arrived_or ran (@again_eq_none crates proxy (.upload number) (by nofun)) rfl with
    ⟨absent, _⟩ |
    ⟨before, arrival, later, config, program, shared, parts, ranBefore, accepted, rest, task, takes⟩
  · rw [absent] at ended
    cases ended
  · rw [task, Option.some_inj] at ended
    subst ended
    rcases Job.accept_cases crates proxy accepted with ⟨_, ⟨⟩, _⟩ | ⟨_, _, _, ⟨⟩, _⟩ |
      ⟨_, key', bytes', gha', ⟨⟩, waiting, client', rfl, -⟩
    rw [client, Option.some_inj] at client'
    subst client'
    have grows : Grows config.shared after.shared := by
      rw [parts, Machine.run_append, ranBefore] at ran
      exact run_grows ran
    cases delivers.spawned_unique (grows.spawned.subset (lookup_mem waiting)) spawned
    obtain ⟨front, result, added, path, puts⟩ := upload_finishes takes
    exact ⟨front, added, result, path, puts⟩

/-! ### The index and its flag -/

/-- How the index and its flag come from what the tasks performed. -/
structure Indexed (read : Finset String) (past : List (TaskId × Done Act Answer)) (now : World) :
    Prop where
  index : ∀ key, key ∈ now.sets .index ↔
    key ∈ read ∨ ∃ id answer, (id, ⟨.insert .index key, answer⟩) ∈ past
  fresh : ∀ id key, (id, ⟨.insert .index key, true⟩) ∈ past → key ∉ read
  grown : now.sets .index = read ∨ ∃ id key, (id, ⟨.insert .index key, true⟩) ∈ past
  dirty : now.flags .index_dirty = true ↔ ∃ id, (id, ⟨.store .index_dirty, ()⟩) ∈ past

/-- The flag of the index is only set by name. -/
theorem exec_dirty {id : TaskId} {action : Act} {choice : Choice} {before after : World}
    {answer : Answer action} (result : World.exec id action choice before = some (answer, after))
    (other : action ≠ .store .index_dirty) :
    after.flags .index_dirty = before.flags .index_dirty := by
  cases action with
  | store flag =>
    cases result
    exact World.raise_of_ne (fun same => other (by rw [same])) _
  | _ =>
    simp only [World.exec] at result
    (repeat' split at result) <;> cases result <;> rfl

theorem Indexed.step {read : Finset String} {past : List (TaskId × Done Act Answer)} {id : TaskId}
    {action : Act} {choice : Choice} {before now : World} {answer : Answer action}
    (indexed : Indexed read past before)
    (result : World.exec id action choice before = some (answer, now)) :
    Indexed read (past ++ [(id, ⟨action, answer⟩)]) now := by
  obtain ⟨index, fresh, grown, dirty⟩ := indexed
  have later : ∀ {other : TaskId × Done Act Answer}, other ∈ past →
      other ∈ past ++ [(id, ⟨action, answer⟩)] := List.mem_append_left _
  have flag : now.flags .index_dirty = true ↔
      ∃ other, (other, ⟨.store .index_dirty, ()⟩) ∈ past ++ [(id, ⟨action, answer⟩)] := by
    by_cases sets : action = .store .index_dirty
    · subst sets
      cases result
      refine iff_of_true (World.raise_self ..) ⟨id, ?_⟩
      exact List.mem_append_right _ (List.mem_singleton_self _)
    · rw [exec_dirty result sets, dirty]
      refine exists_congr fun other => ?_
      rw [List.mem_append, List.mem_singleton]
      refine (or_iff_left ?_).symm
      rintro ⟨⟩
      exact sets rfl
  by_cases inserts : ∃ key, action = .insert .index key
  · obtain ⟨key, rfl⟩ := inserts
    cases result
    refine ⟨fun other => ?_, fun performer other member => ?_, ?_, flag⟩
    · rw [World.addKey_self, Finset.mem_insert, index other]
      constructor
      · rintro (rfl | known | ⟨performer, said, member⟩)
        · exact Or.inr ⟨id, _, List.mem_append_right _ (List.mem_singleton_self _)⟩
        · exact Or.inl known
        · exact Or.inr ⟨performer, said, later member⟩
      · rintro (known | ⟨performer, said, member⟩)
        · exact Or.inr (Or.inl known)
        · rcases List.mem_append.mp member with earlier | now
          · exact Or.inr (Or.inr ⟨performer, said, earlier⟩)
          · cases List.mem_singleton.mp now
            exact Or.inl rfl
    · rcases List.mem_append.mp member with earlier | now
      · exact fresh performer other earlier
      · have told := List.mem_singleton.mp now
        simp only [Prod.mk.injEq, Done.mk.injEq, Act.insert.injEq] at told
        obtain ⟨_, ⟨_, rfl⟩, said⟩ := told
        intro known
        exact of_decide_eq_true (eq_of_heq said).symm ((index _).mpr (Or.inl known))
    · by_cases known : key ∈ before.sets .index
      · rw [World.addKey_self, Finset.insert_eq_of_mem known]
        exact grown.imp_right fun ⟨performer, other, member⟩ => ⟨performer, other, later member⟩
      · refine Or.inr ⟨id, key, List.mem_append_right _ ?_⟩
        rw [decide_eq_true known]
        exact List.mem_singleton_self _
  · have same : now.sets .index = before.sets .index :=
      (exec_sets result .index).resolve_right fun ⟨key, is, _⟩ => inserts ⟨key, is⟩
    have earlier : ∀ {performer : TaskId} {key : String} {said : Bool},
        (performer, (⟨.insert .index key, said⟩ : Done Act Answer)) ∈
          past ++ [(id, ⟨action, answer⟩)] → (performer, ⟨.insert .index key, said⟩) ∈ past := by
      intro performer key said member
      refine (List.mem_append.mp member).resolve_right fun now => inserts ⟨key, ?_⟩
      cases List.mem_singleton.mp now
      rfl
    refine ⟨fun key => ?_, fun performer key member => fresh performer key (earlier member), ?_,
      flag⟩
    · rw [same, index key]
      exact or_congr_right ⟨fun ⟨performer, said, member⟩ => ⟨performer, said, later member⟩,
        fun ⟨performer, said, member⟩ => ⟨performer, said, earlier member⟩⟩
    · rw [same]
      exact grown.imp_right fun ⟨performer, key, member⟩ => ⟨performer, key, later member⟩

theorem indexed (begun : Begun proxy world)
    (ran : (Job.machine crates proxy).run (Job.idle proxy world) events = some after) :
    Indexed (world.sets .index) (history crates proxy world events) after.shared := by
  have start : Indexed (world.sets .index) [] world := by
    refine ⟨fun key => ?_, nofun, Or.inl rfl, ?_⟩
    · exact ⟨Or.inl, fun known => known.resolve_right nofun⟩
    · rw [begun.dirty]
      exact ⟨nofun, nofun⟩
  refine Machine.history_preserves ran (Indexed (world.sets .index)) ?_ ?_ start
  · exact fun past id action choice before answer shared kept result => kept.step result
  · intro past id arrival before program shared kept result
    rcases Job.accept_cases crates proxy result with ⟨_, _, _, rfl⟩ | ⟨_, _, _, _, _, _, rfl⟩ |
      ⟨_, _, _, _, _, _, _, _, rfl⟩ <;> exact kept

/-! ### What the uploads leave behind -/

/-- The counts of an upload. -/
def stores : Done Act Answer → Bool
  | ⟨.record_upload _ ok, _⟩ => ok
  | _ => false

def fails : Done Act Answer → Bool
  | ⟨.record_upload _ ok, _⟩ => !ok
  | _ => false

theorem insert_mem_settles {key other : String} {bytes : Bytes} {added answer : Bool}
    {result : Except String Bool} :
    (⟨.insert .index other, answer⟩ : Done Act Answer) ∈ settles key bytes added result ↔
      other = key ∧ answer = added ∧ ∃ stored, result = .ok stored := by
  rcases result with err | (_ | _) <;> cases added <;> simp [settles, adds]

theorem dirty_mem_settles {key : String} {bytes : Bytes} {added : Bool}
    {result : Except String Bool} :
    (⟨.store .index_dirty, ()⟩ : Done Act Answer) ∈ settles key bytes added result ↔
      added = true ∧ ∃ stored, result = .ok stored := by
  rcases result with err | (_ | _) <;> cases added <;> simp [settles, adds]

theorem countP_stores_settles (key : String) (bytes : Bytes) (added : Bool)
    (result : Except String Bool) : (settles key bytes added result).countP stores =
      match result with
      | .ok true => 1
      | _ => 0 := by
  rcases result with err | (_ | _) <;> cases added <;> rfl

theorem countP_fails_settles (key : String) (bytes : Bytes) (added : Bool)
    (result : Except String Bool) : (settles key bytes added result).countP fails =
      match result with
      | .error _ => 1
      | _ => 0 := by
  rcases result with err | (_ | _) <;> cases added <;> rfl

/-- What the upload performed: a whole `gha.put` and what there is to do about its result. -/
def Settled (crates : Crates) (proxy : Proxy) (gha : GhaCache) (world : World)
    (events : List (Event TaskId Choice Arrival)) (config : Config Act Answer TaskId World Value)
    (number : Nat) (key : String) (bytes : Bytes) (added : Bool) (result : Except String Bool) :
    Prop :=
  (number, key, bytes) ∈ config.shared.spawned ∧ ∃ front,
    pathOf (.upload number) (history crates proxy world events) =
      front ++ settles key bytes added result ∧
    (gha.put crates key bytes).Finishes front result

section Settled

variable {number : Nat} {key : String} {bytes : Bytes} {added : Bool}
variable {result : Except String Bool}

theorem Settled.returned (settled : Settled crates proxy gha world events after number key bytes
    added result) : Returned crates proxy gha world events after number key bytes result := by
  obtain ⟨spawned, front, path, puts⟩ := settled
  exact ⟨spawned, front, _, path, puts⟩

theorem Settled.unique (settled : Settled crates proxy gha world events after number key bytes
    added result) (delivers : Delivers crates proxy world events after) {other : String}
    {contents : Bytes} {answer : Except String Bool}
    (returned : Returned crates proxy gha world events after number other contents answer) :
    other = key ∧ contents = bytes ∧ answer = result := by
  obtain ⟨spawned, front, path, puts⟩ := settled
  obtain ⟨again, begins, back, other, ends⟩ := returned
  cases delivers.spawned_unique again spawned
  exact ⟨rfl, rfl, (ends.unique puts (other.symm.trans path)).2⟩

/-- Apart from calls, an upload performed what its result has it do. -/
theorem Settled.mem_iff (settled : Settled crates proxy gha world events after number key bytes
    added result) {done : Done Act Answer} (other : ¬ Calling done.action) :
    done ∈ pathOf (.upload number) (history crates proxy world events) ↔
      done ∈ settles key bytes added result := by
  obtain ⟨_, front, path, puts⟩ := settled
  rw [path, List.mem_append]
  exact or_iff_right fun member =>
    other (puts.allowed (put_calling crates gha key bytes) done member)

theorem Settled.countP (settled : Settled crates proxy gha world events after number key bytes
    added result) {counted : Done Act Answer → Bool}
    (other : ∀ done, counted done = true → ¬ Calling done.action) :
    (pathOf (.upload number) (history crates proxy world events)).countP counted =
      (settles key bytes added result).countP counted := by
  obtain ⟨_, front, path, puts⟩ := settled
  have none : front.countP counted = 0 := by
    refine List.countP_eq_zero.mpr fun done member counts => other done counts ?_
    exact puts.allowed (put_calling crates gha key bytes) done member
  rw [path, List.countP_append, none, Nat.zero_add]

end Settled

/-- When the loop has ended, every upload has settled what it got back. -/
theorem Delivers.settled (delivers : Delivers crates proxy world events after)
    (client : proxy.store.gha = some gha)
    (ran : (Job.machine crates proxy).run (Job.idle proxy world) events = some after)
    (joined : reached crates proxy world events .uploader = .joined) {number : Nat}
    (begun : number < after.shared.uploads) : ∃ key bytes added result,
      Settled crates proxy gha world events after number key bytes added result := by
  have listed : number ∈ after.shared.spawned.map Prod.fst := by
    rw [delivers.delivering.drained.numbers]
    exact List.mem_range.mpr begun
  obtain ⟨⟨_, key, bytes⟩, spawned, rfl⟩ := List.mem_map.mp listed
  obtain ⟨value, ended⟩ := (delivers.drained joined).2 _ _ spawned
  obtain ⟨front, added, result, path, puts⟩ := upload_settled client ran delivers spawned ended
  exact ⟨key, bytes, added, result, spawned, front, path, puts⟩

/-- Only uploads add to the index, set its flag and count. -/
theorem Delivers.performer (delivers : Delivers crates proxy world events after)
    (ran : (Job.machine crates proxy).run (Job.idle proxy world) events = some after) {id : TaskId}
    {done : Done Act Answer} (member : (id, done) ∈ history crates proxy world events)
    (settling : (∃ key, done.action = .insert .index key) ∨ done.action = .store .index_dirty ∨
      ∃ bytes ok, done.action = .record_upload bytes ok) :
    ∃ number, id = .upload number ∧ number < after.shared.uploads ∧
      done ∈ pathOf (.upload number) (history crates proxy world events) := by
  have inPath := mem_pathOf.mpr member
  obtain ⟨there, _, allowed, _⟩ := (delivers.lawful id).of_mem inPath
  have upload : ∃ number, id = .upload number := by
    rcases settling with ⟨key, same⟩ | same | ⟨bytes, ok, same⟩ <;> rw [same] at allowed <;>
      exact allowed.2
  obtain ⟨number, rfl⟩ := upload
  refine ⟨number, rfl, delivers.begun number ?_, inPath⟩
  rcases Machine.arrived_or ran (@again_eq_none crates proxy (.upload number) (by nofun)) rfl with
    ⟨_, none, _⟩ |
    ⟨_, _, _, _, _, _, _, _, _, rest, task, _⟩
  · rw [none] at inPath
    cases inPath
  · rw [task]
    rfl

/-- What an upload adds to a counter is the sum of what its uploads add, each of them one or
nothing. -/
theorem Delivers.count (delivers : Delivers crates proxy world events after)
    (client : proxy.store.gha = some gha)
    (ran : (Job.machine crates proxy).run (Job.idle proxy world) events = some after)
    (joined : reached crates proxy world events .uploader = .joined) (counter : World → Nat)
    (counted : Done Act Answer → Bool) (kind : Except String Bool → Prop)
    (moves : ∀ {id : TaskId} {action : Act} {choice : Choice} {before now : World}
      {answer : Answer action}, World.exec id action choice before = some (answer, now) →
        counter now = counter before + if counted ⟨action, answer⟩ = true then 1 else 0)
    (records : ∀ done, counted done = true → ∃ bytes ok, done.action = .record_upload bytes ok)
    (one : ∀ key bytes added result, kind result →
      (settles key bytes added result).countP counted = 1)
    (nothing : ∀ key bytes added result, ¬ kind result →
      (settles key bytes added result).countP counted = 0) (zero : counter world = 0) :
    {number | ∃ key bytes result, kind result ∧
      Returned crates proxy gha world events after number key bytes result}.encard =
        counter after.shared := by
  classical
  let kinds : Set Nat := {number | ∃ key bytes result, kind result ∧
    Returned crates proxy gha world events after number key bytes result}
  have calls : ∀ done, counted done = true → ¬ Calling done.action := by
    intro done counts calling
    obtain ⟨bytes, ok, same⟩ := records done counts
    rw [same] at calling
    exact calling
  have total : counter after.shared =
      (history crates proxy world events).countP fun entry => counted entry.2 := by
    have sum := Machine.count_history ran counter counted (fun _ _ _ _ _ _ result => moves result)
      fun id arrival before program shared result => by
        rcases Job.accept_cases crates proxy result with ⟨_, _, _, rfl⟩ | ⟨_, _, _, _, _, _, rfl⟩ |
          ⟨_, _, _, _, _, _, _, _, rfl⟩ <;> rfl
    rw [sum]
    exact (congrArg (· + _) zero).trans (Nat.zero_add _)
  have parts : ∀ number ∈ Finset.range after.shared.uploads,
      (pathOf (.upload number) (history crates proxy world events)).countP counted =
        if number ∈ kinds then 1 else 0 := by
    intro number begun
    obtain ⟨key, bytes, added, result, settled⟩ :=
      delivers.settled client ran joined (Finset.mem_range.mp begun)
    rw [settled.countP calls]
    by_cases is : kind result
    · rw [one _ _ _ _ is, if_pos ⟨key, bytes, result, is, settled.returned⟩]
    · rw [nothing _ _ _ _ is, if_neg]
      rintro ⟨_, _, other, kinds, returned⟩
      exact is ((settled.unique delivers returned).2.2 ▸ kinds)
  have inRange : kinds = ((Finset.range after.shared.uploads).filter (· ∈ kinds) : Set Nat) := by
    ext number
    rw [Finset.mem_coe, Finset.mem_filter, Finset.mem_range]
    refine (and_iff_right_of_imp ?_).symm
    rintro ⟨key, bytes, _, _, spawned, _⟩
    have listed := List.mem_map_of_mem (f := Prod.fst) spawned
    rwa [delivers.delivering.drained.numbers, List.mem_range] at listed
  have ids : ∀ entry ∈ history crates proxy world events, counted entry.2 = true →
      entry.1 ∈ (Finset.range after.shared.uploads).image TaskId.upload := by
    rintro ⟨id, done⟩ member counts
    obtain ⟨number, rfl, begun, _⟩ :=
      delivers.performer ran member (Or.inr (Or.inr (records done counts)))
    exact Finset.mem_image_of_mem _ (Finset.mem_range.mpr begun)
  have injective : Set.InjOn TaskId.upload (Finset.range after.shared.uploads : Set Nat) :=
    fun _ _ _ _ same => TaskId.upload.inj same
  change kinds.encard = _
  rw [inRange, Set.encard_coe_eq_coe_finsetCard, total, countP_history counted _ _ ids,
    Finset.sum_image injective, Finset.sum_congr rfl parts, ← Finset.card_filter]

/-- What is left when the upload loop has ended, as a function of what `gha.put` returned. -/
structure Tallied (crates : Crates) (proxy : Proxy) (gha : GhaCache) (world : World)
    (events : List (Event TaskId Choice Arrival)) (after : Config Act Answer TaskId World Value) :
    Prop where
  returned : ∀ number key bytes, Offered after number key bytes →
    ∃! result, Returned crates proxy gha world events after number key bytes result
  index : ∀ key, key ∈ after.shared.sets .index ↔ key ∈ world.sets .index ∨
    ∃ number bytes stored, Returned crates proxy gha world events after number key bytes
      (.ok stored)
  dirty : after.shared.flags .index_dirty = true ↔
    after.shared.sets .index ≠ world.sets .index
  entries_stored : {number | ∃ key bytes,
      Returned crates proxy gha world events after number key bytes (.ok true)}.encard =
    after.shared.stats.entries_stored
  uploads_failed : {number | ∃ key bytes err,
      Returned crates proxy gha world events after number key bytes (.error err)}.encard =
    after.shared.stats.uploads_failed

theorem not_calling_index (key : String) : ¬ Calling (.insert .index key) := by
  rintro (same | same) <;> cases same

theorem not_calling_dirty : ¬ Calling (.store .index_dirty) := by
  intro same
  cases same

section Ended

variable (delivers : Delivers crates proxy world events after)
variable (client : proxy.store.gha = some gha) (begun : Begun proxy world)
variable (ran : (Job.machine crates proxy).run (Job.idle proxy world) events = some after)
variable (joined : reached crates proxy world events .uploader = .joined)

include delivers client ran joined

/-- Who has added a key to the index has `gha.put`'s word for it. -/
theorem Delivers.adder {id : TaskId} {key : String} {answer : Bool}
    (member : (id, ⟨.insert .index key, answer⟩) ∈ history crates proxy world events) :
    ∃ number bytes stored, id = .upload number ∧
      Settled crates proxy gha world events after number key bytes answer (.ok stored) := by
  obtain ⟨number, rfl, spawned, inPath⟩ := delivers.performer ran member (Or.inl ⟨key, rfl⟩)
  obtain ⟨other, bytes, added, result, settled⟩ := delivers.settled client ran joined spawned
  rw [settled.mem_iff (not_calling_index key), insert_mem_settles] at inPath
  obtain ⟨rfl, rfl, stored, rfl⟩ := inPath
  exact ⟨number, bytes, stored, rfl, settled⟩

theorem Delivers.returned_settled {number : Nat} {key : String} {bytes : Bytes}
    (spawned : (number, key, bytes) ∈ after.shared.spawned) :
    ∃ added result, Settled crates proxy gha world events after number key bytes added result := by
  have listed := List.mem_map_of_mem (f := Prod.fst) spawned
  rw [delivers.delivering.drained.numbers, List.mem_range] at listed
  obtain ⟨other, contents, added, result, settled⟩ := delivers.settled client ran joined listed
  cases delivers.spawned_unique settled.1 spawned
  exact ⟨added, result, settled⟩

include begun

theorem Delivers.index_iff (key : String) : key ∈ after.shared.sets .index ↔
    key ∈ world.sets .index ∨ ∃ number bytes stored,
      Returned crates proxy gha world events after number key bytes (.ok stored) := by
  rw [(indexed begun ran).index]
  refine or_congr_right ⟨?_, ?_⟩
  · rintro ⟨id, answer, member⟩
    obtain ⟨number, bytes, stored, _, settled⟩ := delivers.adder client ran joined member
    exact ⟨number, bytes, stored, settled.returned⟩
  · rintro ⟨number, bytes, stored, returned⟩
    obtain ⟨added, result, settled⟩ := delivers.returned_settled client ran joined returned.1
    obtain ⟨-, -, rfl⟩ := settled.unique delivers returned
    refine ⟨.upload number, added, mem_pathOf.mp ?_⟩
    rw [settled.mem_iff (not_calling_index key), insert_mem_settles]
    exact ⟨rfl, rfl, stored, rfl⟩

theorem Delivers.dirty_iff : after.shared.flags .index_dirty = true ↔
    after.shared.sets .index ≠ world.sets .index := by
  have indexed : Indexed (world.sets .index) (history crates proxy world events) after.shared :=
    indexed begun ran
  rw [indexed.dirty]
  constructor
  · rintro ⟨id, member⟩ same
    obtain ⟨number, rfl, spawned, inPath⟩ := delivers.performer ran member (Or.inr (Or.inl rfl))
    obtain ⟨key, bytes, added, result, settled⟩ := delivers.settled client ran joined spawned
    rw [settled.mem_iff not_calling_dirty, dirty_mem_settles] at inPath
    obtain ⟨rfl, stored, rfl⟩ := inPath
    have inserted : (TaskId.upload number, (⟨.insert .index key, true⟩ : Done Act Answer)) ∈
        history crates proxy world events := by
      rw [← mem_pathOf, settled.mem_iff (not_calling_index key), insert_mem_settles]
      exact ⟨rfl, rfl, stored, rfl⟩
    refine indexed.fresh _ _ inserted ?_
    rw [← same, indexed.index]
    exact Or.inr ⟨_, _, inserted⟩
  · intro grown
    obtain ⟨id, key, member⟩ := indexed.grown.resolve_left grown
    obtain ⟨number, bytes, stored, rfl, settled⟩ := delivers.adder client ran joined member
    refine ⟨.upload number, mem_pathOf.mp ?_⟩
    rw [settled.mem_iff not_calling_dirty, dirty_mem_settles]
    exact ⟨rfl, stored, rfl⟩

theorem Delivers.entries_stored : {number | ∃ key bytes, Returned crates proxy gha world events
    after number key bytes (.ok true)}.encard = after.shared.stats.entries_stored := by
  have counted := delivers.count client ran joined (fun now => now.stats.entries_stored) stores
    (· = .ok true) ?_ ?_ ?_ ?_ begun.stored
  · simpa only [exists_eq_left] using counted
  · intro id action choice before now answer result
    rw [exec_stats result]
    cases action with
    | record_upload bytes ok => cases ok <;> rfl
    | record outcome method url bytes millis => cases outcome <;> rfl
    | _ => rfl
  · rintro ⟨action, answer⟩ counts
    cases action with
    | record_upload bytes ok => exact ⟨bytes, ok, rfl⟩
    | _ => cases counts
  · rintro key bytes added _ rfl
    rw [countP_stores_settles]
  · intro key bytes added result other
    rw [countP_stores_settles]
    rcases result with err | (_ | _)
    · rfl
    · rfl
    · exact absurd rfl other

theorem Delivers.uploads_failed : {number | ∃ key bytes err, Returned crates proxy gha world events
    after number key bytes (.error err)}.encard = after.shared.stats.uploads_failed := by
  have counted := delivers.count client ran joined (fun now => now.stats.uploads_failed) fails
    (fun result => ∃ err, result = .error err) ?_ ?_ ?_ ?_ begun.failed
  · rw [← counted]
    congr 1
    ext number
    refine exists_congr fun key => exists_congr fun bytes => ⟨?_, ?_⟩
    · rintro ⟨err, returned⟩
      exact ⟨_, ⟨err, rfl⟩, returned⟩
    · rintro ⟨_, ⟨err, rfl⟩, returned⟩
      exact ⟨err, returned⟩
  · intro id action choice before now answer result
    rw [exec_stats result]
    cases action with
    | record_upload bytes ok => cases ok <;> rfl
    | record outcome method url bytes millis => cases outcome <;> rfl
    | _ => rfl
  · rintro ⟨action, answer⟩ counts
    cases action with
    | record_upload bytes ok => exact ⟨bytes, ok, rfl⟩
    | _ => cases counts
  · rintro key bytes added _ ⟨err, rfl⟩
    rw [countP_fails_settles]
  · intro key bytes added result other
    rw [countP_fails_settles]
    rcases result with err | (_ | _)
    · exact absurd ⟨err, rfl⟩ other
    · rfl
    · rfl

theorem Delivers.tallied : Tallied crates proxy gha world events after where
  returned number key bytes offered := by
    obtain ⟨added, result, settled⟩ := delivers.returned_settled client ran joined offered.1
    exact ⟨result, settled.returned, fun answer returned => (settled.unique delivers returned).2.2⟩
  index := delivers.index_iff client begun ran joined
  dirty := delivers.dirty_iff client begun ran joined
  entries_stored := delivers.entries_stored client begun ran joined
  uploads_failed := delivers.uploads_failed client begun ran joined

end Ended

/-! ### What a job delivers -/

/-- A manifest lists the keys in their order, whatever order they were found in. -/
theorem manifest_eq {keys : List String} (nodup : keys.Nodup) :
    Store.manifest keys = utf8 (joinLines (keys.toFinset.sort (· ≤ ·))) := by
  have permuted : (sort keys).Perm keys := List.perm_insertionSort _ _
  have sorted : (sort keys).Pairwise (· ≤ ·) := List.pairwise_insertionSort _ _
  have lines : Store.manifestLines keys = sort keys :=
    List.destutter_of_isChain _ _ ((permuted.nodup_iff.mpr nodup).isChain)
  rw [Store.manifest, lines, ← List.toFinset_eq_of_perm _ _ permuted,
    ((List.toFinset_sort (· ≤ ·) (permuted.nodup_iff.mpr nodup)).mpr sorted)]

/-- What holds of the uploads, whatever the order in which the tasks of a job have run so far. -/
structure Delivered (crates : Crates) (proxy : Proxy) (gha : GhaCache) (world : World)
    (events : List (Event TaskId Choice Arrival)) (after : Config Act Answer TaskId World Value) :
    Prop where
  /-- A key comes to `gha.put` at most once. -/
  once : ∀ number other key bytes contents, Offered after number key bytes →
    Offered after other key contents → number = other
  /-- It does so with the bytes of the `put` that queued it, of which there is one. -/
  first : ∀ number key bytes, Offered after number key bytes → ∃ call,
    Queues crates proxy world events call key bytes ∧
    ∀ other contents, Queues crates proxy world events other key contents → other = call
  /-- An object that is not a small one, whose `put` was the first of its key and returned before
  `flush` began, has come to `gha.put` and back when `save_index` reads the index. -/
  whole : ∀ front back middle call key bytes value id next, events = front ++ back →
    (Job.machine crates proxy).run (Job.idle proxy world) front = some middle →
    (∀ flusher, .arrive flusher .flush ∉ front) → Queues crates proxy world front call key bytes →
    proxy.store.config.pack_threshold ≤ bytes.length →
    middle.tasks (.call call) = some (.finish value) →
    after.tasks id = some (.perform (.iter .index) next) →
    ∃ number result, Offered after number key bytes ∧
      after.tasks (.upload number) = some (.finish result)
  inFlight : ∀ uploads : Finset Nat, (∀ number ∈ uploads, ∃ action next,
    after.tasks (.upload number) = some (.perform action next)) →
    uploads.card ≤ max proxy.store.config.concurrency 1
  ended : after.tasks .uploader = some (.finish (.round false)) →
    Tallied crates proxy gha world events after
  manifest : ∀ keys : List String, keys.Nodup → keys.toFinset = after.shared.sets .index →
    Store.manifest keys = utf8 (joinLines ((after.shared.sets .index).sort (· ≤ ·)))

/-- A sent object stays sent. -/
theorem Delivers.sent_kept (delivers : Delivers crates proxy world events after)
    {front back : List (Event TaskId Choice Arrival)}
    {middle : Config Act Answer TaskId World Value} (parts : events = front ++ back)
    (ran : (Job.machine crates proxy).run (Job.idle proxy world) front = some middle) {id : TaskId}
    {item : Item} (sent : reached crates proxy world front id = .sent item) :
    reached crates proxy world events id = .sent item := by
  subst parts
  have lawful := delivers.lawful id
  have there : (pathOf id (history crates proxy world front)).foldl
      (stages (front ++ back)).next .idle = .sent item := sent
  rw [history, Machine.history_append ran, pathOf_append] at lawful
  rw [reached, Stages.along, history, Machine.history_append ran, pathOf_append, List.foldl_append,
    there]
  have later := lawful.append.2
  rw [there] at later
  refine later.keeps (fun stage : Stage => stage = .sent item) (fun stage done allowed same => ?_)
    rfl
  subst same
  exact (next_moves allowed).sent

theorem Delivers.inFlight (delivers : Delivers crates proxy world events after)
    (uploads : Finset Nat) (flying : ∀ number ∈ uploads, ∃ action next,
      after.tasks (.upload number) = some (.perform action next)) :
    uploads.card ≤ max proxy.store.config.concurrency 1 := by
  have running : uploads ⊆ after.shared.running.toFinset := by
    intro number member
    obtain ⟨action, next, task⟩ := flying number member
    rw [List.mem_toFinset, delivers.delivering.drained.running]
    refine ⟨delivers.begun number (by rw [task]; rfl), fun dropped => ?_⟩
    obtain ⟨value, ended⟩ := delivers.dropped dropped
    rw [task] at ended
    cases ended
  calc uploads.card
      ≤ after.shared.running.toFinset.card := Finset.card_le_card running
    _ ≤ after.shared.running.length := List.toFinset_card_le _
    _ ≤ max proxy.store.config.concurrency 1 := by
      have permits := delivers.delivering.drained.permits
      omega

theorem delivered (client : proxy.store.gha = some gha) (begun : Begun proxy world)
    (storing : Storing events)
    (ran : (Job.machine crates proxy).run (Job.idle proxy world) events = some after) :
    Delivered crates proxy gha world events after := by
  have delivers := delivers client begun storing ran
  refine ⟨?_, ?_, ?_, delivers.inFlight, ?_, ?_⟩
  · exact fun _ _ _ _ _ offered again => (delivers.once offered.1 again.1).1
  · intro number key bytes offered
    obtain ⟨call, queues⟩ := delivers.queued offered.1
    refine ⟨call, queues, fun other contents again => ?_⟩
    exact TaskId.call.inj (delivers.delivering.owned.owner _ _ key (delivers.owns_iff.mpr again.2)
      (delivers.owns_iff.mpr queues.2))
  · intro front back middle call key bytes value id next parts ranFront open_ queues large returned
      saving
    have storingFront : Storing front := (parts ▸ storing).front
    have deliversFront := Delivery.delivers client begun storingFront ranFront
    have sent := delivers.sent_kept parts ranFront
      (deliversFront.sent ranFront open_ queues large returned)
    have joined := delivers.delivering.drained.done (delivers.waited storing saving)
    obtain ⟨number, spawned⟩ := (delivers.drained joined).1 _ _ sent
    obtain ⟨result, ended⟩ := (delivers.drained joined).2 _ _ spawned
    refine ⟨number, result, ⟨spawned, ?_⟩, ended⟩
    rw [ended]
    rfl
  · intro returned
    refine delivers.tallied client begun ran ?_
    rcases delivers.staged.tasks _ _ returned with ⟨⟨⟩, _⟩ | ⟨-, joined⟩
    exact joined
  · intro keys nodup listed
    rw [← listed]
    exact manifest_eq nodup

end Run

/-! ### A job that puts one key twice -/

/-- A proxy that packs the empty objects only. -/
def packingProxy : Proxy :=
  { exampleProxy with
    store := { exampleStore with config := { exampleStore.config with pack_threshold := 1 } } }

/-- An empty object is put, then one of the same key that is not small, then one of another key. -/
def putsTwice : List (Event TaskId Choice Arrival) :=
  [.arrive (.call 0) (.put "t-0" []), .run (.call 0) .quiet, .run (.call 0) (.opened false),
    .run (.call 0) .quiet, .run (.call 0) .quiet,
    .arrive (.call 1) (.put "t-0" [0x78]), .run (.call 1) .quiet] ++ putRuns 2 "t-1"

/-- The service has the other key already. The job is flushed up to the point where it reads the
index. -/
def flushed : List (Event TaskId Choice Arrival) :=
  spawnRuns ++ [.arrive (.upload 0) .upload, .run (.upload 0) .quiet,
      .run (.upload 0) (.replied (some ⟨.CONFLICT, ""⟩) .nothing),
      .run (.upload 0) .quiet, .run (.upload 0) .quiet, .run (.upload 0) .quiet,
      .arrive (.call 3) .flush, .run (.call 3) .quiet, .run (.call 3) .quiet,
      .run .uploader .quiet, .run .uploader .quiet, .run .uploader .quiet,
      .run (.call 3) .quiet, .run (.call 3) .quiet]

/-- The job stores objects and is flushed once. -/
theorem storing_putsTwice : Storing (putsTwice ++ flushed) := by
  constructor
  · intro id arrival member
    simp only [putsTwice, putRuns, flushed, spawnRuns, List.cons_append, List.nil_append,
      List.mem_cons, List.not_mem_nil, Event.arrive.injEq, reduceCtorEq, false_or, or_false]
      at member
    rcases member with ⟨_, rfl⟩ | ⟨_, rfl⟩ | ⟨_, rfl⟩ | ⟨_, rfl⟩ | ⟨_, rfl⟩ <;>
      exact ⟨by rintro ⟨⟩, by rintro _ _ ⟨⟩⟩
  · intro id other first second
    simp only [putsTwice, putRuns, flushed, spawnRuns, List.cons_append, List.nil_append,
      List.mem_cons, List.not_mem_nil, Event.arrive.injEq, reduceCtorEq, and_false, and_true,
      false_or, or_false] at first second
    rw [first, second]

set_option maxRecDepth 8000 in
/-- The second object of the key was put before the job was flushed, and is not uploaded. -/
theorem dropped_put :
    ¬ ∀ (crates : Crates) (proxy : Proxy) (gha : GhaCache) (world : World)
      (front back : List (Event TaskId Choice Arrival))
      (middle after : Config Act Answer TaskId World Value) (call : Nat) (key : String)
      (bytes : Bytes) (value : Value) (id : TaskId) (next : List String → Task Value),
      proxy.store.gha = some gha → Begun proxy world → Storing (front ++ back) →
      (Job.machine crates proxy).run (Job.idle proxy world) front = some middle →
      (Job.machine crates proxy).run middle back = some after →
      (∀ flusher, .arrive flusher .flush ∉ front) → .arrive (.call call) (.put key bytes) ∈ front →
      proxy.store.config.pack_threshold ≤ bytes.length →
      middle.tasks (.call call) = some (.finish value) →
      after.tasks id = some (.perform (.iter .index) next) →
      ∃ number, Offered after number key bytes := by
  intro always
  obtain ⟨number, spawned, _⟩ := always .unknown packingProxy _ _ putsTwice flushed _ _ 1 "t-0"
    [0x78] .done (.call 3) _ rfl (begun_fresh packingProxy .empty []) storing_putsTwice rfl rfl
    (by simp [putsTwice, putRuns]) (by simp [putsTwice]) le_rfl rfl rfl
  have only : ((number, "t-0", [0x78]) : Nat × Item) = (0, "t-1", [0x78]) :=
    List.mem_singleton.mp spawned
  rw [Prod.mk.injEq, Prod.mk.injEq] at only
  exact absurd only.2.1 (by decide)

set_option maxRecDepth 8000 in
/-- What holds of the uploads of that job. -/
theorem delivered_putsTwice : ∃ after, Offered after 0 "t-1" [0x78] ∧
    Delivered .unknown packingProxy ⟨"https://results.example/", "token", "version"⟩
      (Job.fresh packingProxy .empty []) (putsTwice ++ flushed) after := by
  have ran : (Job.machine .unknown packingProxy).run
    (Job.idle packingProxy (Job.fresh packingProxy .empty [])) (putsTwice ++ flushed) = some _ :=
      rfl
  exact ⟨_, ⟨List.mem_singleton_self _, rfl⟩,
    delivered rfl (begun_fresh packingProxy .empty []) storing_putsTwice ran⟩

end Delivery

end Cicache
