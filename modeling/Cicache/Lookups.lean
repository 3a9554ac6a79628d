/-
This file settles how often a job asks the service for an object. A lookup leaves a mark, whatever
the service answers: the file of the object, or its key among those that were missed; and so does
the `put` that stores the object first. Who finds a mark does not ask. On a disk that works, lookups
that follow each other are therefore of different keys, and all of them are in the index.

A `put` of a key that is queued already leaves no mark of its own. It returns at once, while the
first one may still be writing.
-/

import Cicache.Index
import Cicache.Outcomes

namespace Cicache

open Text Interleaving Program

/-! ### What is asked and when -/

/-- The service is asked for the object of a key. -/
def AsksFor (key : String) : Done Act Answer → Prop
  | ⟨.post _ _ (.GetCacheEntryDownloadURL asked _ []), _⟩ => asked = key
  | _ => False

section Trails

variable (crates : Crates) (store : Store)

/-- A `get` of the key has asked the service for the other one. -/
def Asked (key other : String) (trail : Trail) : Prop :=
  ∃ path rest, path <:+: trail ∧ (store.get crates key).Takes path rest ∧
    ∃ done ∈ path, AsksFor other done

/-- A `get` of the key has asked the service for it and returned. -/
def LookedUp (key : String) (trail : Trail) : Prop :=
  ∃ path result, path <:+: trail ∧ (store.get crates key).Finishes path result ∧
    ∃ done ∈ path, AsksFor key done

/-- A `put` of the key has returned. -/
def HasPut (key : String) (trail : Trail) : Prop :=
  ∃ path bytes, path <:+: trail ∧ (store.put key bytes).Finishes path ()

/-- The `put` that was the first of the key, with these bytes, has returned. -/
def PutFirst (key : String) (bytes : Bytes) (trail : Trail) : Prop :=
  ∃ path, path <:+: trail ∧ (store.put key bytes).Finishes path () ∧
    ⟨.insert .queued key, true⟩ ∈ path

/-- The `put` that was the first of the key has returned. -/
def HasPutFirst (key : String) (trail : Trail) : Prop := ∃ bytes, PutFirst store key bytes trail

end Trails

/-- What is written to disk is written. -/
def writes : Done Act Answer → Bool
  | ⟨.write_begin _ _, opened⟩ => opened
  | ⟨.write_end _ _, written⟩ => written
  | _ => true

/-- The disk works: what is written is written, and a file that is there can be read. -/
def diskWorks (before : World) : Done Act Answer → Bool
  | ⟨.read path, none⟩ => (before.files path).content.isNone
  | done => writes done

theorem writes_of_diskWorks {before : World} {done : Done Act Answer}
    (works : diskWorks before done = true) : writes done = true := by
  unfold diskWorks at works
  split at works
  · rfl
  · exact works

/-- Lookups that follow each other: in each part of the run one is made, from start to end. -/
def InTurn (crates : Crates) (proxy : Proxy) :
    Config Act Answer TaskId World Value → List (List (Event TaskId Choice Arrival) × String) → Prop
  | _, [] => True
  | config, (events, key) :: rest => ∃ next id,
      (Job.machine crates proxy).run config events = some next ∧
      LookedUp crates proxy.store key
        (pathOf id ((Job.machine crates proxy).history config events)) ∧
      InTurn crates proxy next rest

/-! ### The paths through `get` and `put` -/

section Paths

variable {crates : Crates} {store : Store} {gha : GhaCache} {key : String} {path : Trail}

/-- The paths through `write`. -/
inductive Writes (file : String) : Trail → Prop where
  | unopened (bytes : Bytes) : Writes file [⟨.write_begin file bytes, false⟩]
  | written (bytes : Bytes) (ok : Bool) :
      Writes file [⟨.write_begin file bytes, true⟩, ⟨.write_end file bytes, ok⟩]

/-- The mark that a lookup leaves. -/
inductive Marks (store : Store) (key : String) : Trail → Prop where
  | wrote {path : Trail} (writes : Writes (store.path key) path) : Marks store key path
  | missed (added : Bool) : Marks store key [⟨.insert .remote_misses key, added⟩]

theorem write_finishes {file : String} {bytes : Bytes} {ok : Bool}
    (ends : (write file bytes).Finishes path ok) : Writes file path := by
  obtain ⟨opened, rest, rfl, later⟩ := (finishes_act ..).mp ends
  cases opened with
  | false =>
    obtain ⟨rfl, -⟩ := (finishes_finish ..).mp later
    exact .unopened bytes
  | true =>
    obtain ⟨written, nothing, rfl, done⟩ := (finishes_perform ..).mp later
    obtain ⟨rfl, -⟩ := (finishes_finish ..).mp done
    exact .written bytes written

/-- A fetch asks for its key and for nothing else. -/
def AsksOnly (key : String) (action : Act) : Prop :=
  ∀ url token request, action = .post url token request →
    ∃ version, request = .GetCacheEntryDownloadURL key version []

theorem get_asksOnly (crates : Crates) (gha : GhaCache) (key : String) :
    (gha.get crates key).Within (AsksOnly key) := by
  unfold GhaCache.get GhaCache.fetch
  refine .act nofun fun exhausted => ?_
  split
  · exact trivial
  · rw [GhaCache.rpc_eq]
    refine Within.bind (.act ?_ fun reply => ?_) fun answered => ?_
    · rintro url token request ⟨⟩
      exact ⟨_, rfl⟩
    · split
      · exact .act nofun fun _ => trivial
      · exact trivial
    · cases answered with
      | error err => exact trivial
      | ok response =>
        dsimp only
        split
        · exact trivial
        · refine .act nofun fun downloaded => ?_
          cases downloaded with
          | none => exact trivial
          | some answer =>
            dsimp only
            split
            · exact trivial
            · split <;> exact trivial

theorem AsksOnly.eq {done : Done Act Answer} {other : String} (only : AsksOnly key done.action)
    (asks : AsksFor other done) : other = key := by
  unfold AsksFor at asks
  split at asks
  · obtain ⟨version, same⟩ := only _ _ _ rfl
    cases same
    exact asks.symm
  · exact asks.elim

theorem Marks.silent (marks : Marks store key path) {other : String} :
    ∀ done ∈ path, ¬ AsksFor other done := by
  intro done member asks
  cases marks with
  | wrote writes =>
    cases writes with
    | unopened bytes =>
      obtain rfl := List.mem_singleton.mp member
      exact asks
    | written bytes ok =>
      rcases List.mem_cons.mp member with rfl | later
      · exact asks
      · obtain rfl := List.mem_singleton.mp later
        exact asks
  | missed added =>
    obtain rfl := List.mem_singleton.mp member
    exact asks

/-- A `get` asks nothing; or it found no file, its key in the index and not among the missed ones,
asks for that key alone, and leaves a mark. -/
theorem get_finishes {result : Option Bytes} (ends : (store.get crates key).Finishes path result) :
    (∀ done ∈ path, ∀ other, ¬ AsksFor other done) ∨
    ∃ fetched marks, path = ⟨.read (store.path key), none⟩ :: ⟨.contains .index key, true⟩ ::
        ⟨.contains .remote_misses key, false⟩ :: (fetched ++ marks) ∧
      (∀ done ∈ fetched, AsksOnly key done.action) ∧ Marks store key marks := by
  unfold Store.get at ends
  obtain ⟨content, behindRead, rfl, readOn⟩ := (finishes_act ..).mp ends
  have quiet : ∀ {trail : Trail}, (∀ done ∈ trail, ∀ url token request,
      done.action ≠ .post url token request) → ∀ done ∈ trail, ∀ other, ¬ AsksFor other done := by
    intro trail silent done member other asks
    unfold AsksFor at asks
    split at asks
    · exact silent _ member _ _ _ rfl
    · exact asks
  cases content with
  | some bytes =>
    obtain ⟨rfl, -⟩ := (finishes_finish ..).mp readOn
    refine Or.inl (quiet ?_)
    rw [List.forall_mem_singleton]
    exact nofun
  | none =>
    dsimp only at readOn
    split at readOn
    · obtain ⟨rfl, -⟩ := (finishes_finish ..).mp readOn
      refine Or.inl (quiet ?_)
      rw [List.forall_mem_singleton]
      exact nofun
    · obtain ⟨known, behindIndex, rfl, indexOn⟩ := (finishes_act ..).mp readOn
      cases known with
      | false =>
        obtain ⟨rfl, -⟩ := (finishes_finish ..).mp indexOn
        refine Or.inl (quiet ?_)
        rw [List.forall_mem_cons, List.forall_mem_singleton]
        exact ⟨nofun, nofun⟩
      | true =>
        rw [if_pos rfl] at indexOn
        obtain ⟨missed, behindMisses, rfl, missesOn⟩ := (finishes_act ..).mp indexOn
        cases missed with
        | true =>
          obtain ⟨rfl, -⟩ := (finishes_finish ..).mp missesOn
          refine Or.inl (quiet ?_)
          rw [List.forall_mem_cons, List.forall_mem_cons, List.forall_mem_singleton]
          exact ⟨nofun, nofun, nofun⟩
        | false =>
          rw [if_neg Bool.false_ne_true] at missesOn
          obtain ⟨fetched, answered, marks, rfl, fetches, last⟩ := (finishes_bind ..).mp missesOn
          refine Or.inr ⟨fetched, marks, rfl, Takes.allowed fetches (get_asksOnly crates _ key), ?_⟩
          rcases answered with err | (_ | bytes)
          · obtain ⟨added, nothing, rfl, done⟩ := (finishes_act ..).mp last
            obtain ⟨rfl, -⟩ := (finishes_finish ..).mp done
            exact .missed added
          · obtain ⟨added, nothing, rfl, done⟩ := (finishes_act ..).mp last
            obtain ⟨rfl, -⟩ := (finishes_finish ..).mp done
            exact .missed added
          · obtain ⟨writes, ok, nothing, rfl, writing, done⟩ := (finishes_bind ..).mp last
            obtain ⟨rfl, -⟩ := (finishes_finish ..).mp done
            rw [List.append_nil]
            exact .wrote (write_finishes writing)

/-- A `put` that was the first of its key goes on with a write of its bytes. -/
theorem put_first {bytes : Bytes} (ends : (store.put key bytes).Finishes path ())
    (first : ⟨.insert .queued key, true⟩ ∈ path) :
    ∃ writes ok rest, path = ⟨.insert .queued key, true⟩ :: (writes ++ rest) ∧
      (write (store.path key) bytes).Finishes writes ok := by
  unfold Store.put at ends
  obtain ⟨fresh, behind, rfl, later⟩ := (finishes_act ..).mp ends
  cases fresh with
  | false =>
    obtain ⟨rfl, -⟩ := (finishes_finish ..).mp later
    cases List.mem_singleton.mp first
  | true =>
    rw [if_pos rfl] at later
    obtain ⟨writes, ok, rest, rfl, writing, -⟩ := (finishes_bind ..).mp later
    exact ⟨writes, ok, rest, rfl, writing⟩

/-- A `put` that was the first of its key writes its file. -/
theorem put_writes {bytes : Bytes} (ends : (store.put key bytes).Finishes path ())
    (first : ⟨.insert .queued key, true⟩ ∈ path) :
    ∃ writes, Writes (store.path key) writes ∧ ∀ done ∈ writes, done ∈ path := by
  obtain ⟨writes, ok, rest, rfl, writing⟩ := put_first ends first
  exact ⟨writes, write_finishes writing,
    fun done member => List.mem_cons_of_mem _ (List.mem_append_left _ member)⟩

/-- A lookup leaves a mark. -/
theorem lookup_marks {result : Option Bytes} (ends : (store.get crates key).Finishes path result)
    {other : String} (asks : ∃ done ∈ path, AsksFor other done) :
    ∃ marks, Marks store key marks ∧ ∀ done ∈ marks, done ∈ path := by
  obtain ⟨done, member, asked⟩ := asks
  rcases get_finishes ends with silent | ⟨fetched, marks, rfl, -, marked⟩
  · exact absurd asked (silent done member other)
  · refine ⟨marks, marked, fun done member => ?_⟩
    exact List.mem_cons_of_mem _ (List.mem_cons_of_mem _ (List.mem_cons_of_mem _
      (List.mem_append_right _ member)))

/-- What comes to something behind the first element has come past that. -/
theorem past_first {Element : Type} {kind : Element → Prop} {front back rest : List Element}
    {first : Element} (whole : front ++ back = first :: rest) (other : ¬ kind first)
    (comes : ∃ element ∈ front, kind element) :
    ∃ later, front = first :: later ∧ later ++ back = rest ∧ ∃ element ∈ later, kind element := by
  cases front with
  | nil =>
    obtain ⟨element, none, -⟩ := comes
    cases none
  | cons head later =>
    obtain ⟨rfl, same⟩ := List.cons.inj whole
    exact ⟨later, rfl, same, ((List.exists_mem_cons_iff ..).mp comes).resolve_left other⟩

/-- A `get` that has asked had found no mark, and its key in the index. -/
theorem get_asked {rest : Task (Option Bytes)} (takes : (store.get crates key).Takes path rest)
    {other : String} (asks : ∃ done ∈ path, AsksFor other done) :
    other = key ∧ ⟨.read (store.path key), none⟩ ∈ path ∧ ⟨.contains .index key, true⟩ ∈ path ∧
      ⟨.contains .remote_misses key, false⟩ ∈ path := by
  obtain ⟨back, result, ends⟩ := takes.exists_finishes
  rcases get_finishes ends with silent | ⟨fetched, marks, whole, only, marked⟩
  · obtain ⟨done, member, asked⟩ := asks
    exact absurd asked (silent done (List.mem_append_left _ member) other)
  · obtain ⟨behindRead, rfl, whole, asks⟩ := past_first whole not_false asks
    obtain ⟨behindIndex, rfl, whole, asks⟩ := past_first whole not_false asks
    obtain ⟨behindMisses, rfl, whole, asks⟩ := past_first whole not_false asks
    refine ⟨?_, List.mem_cons_self, List.mem_cons_of_mem _ List.mem_cons_self,
      List.mem_cons_of_mem _ (List.mem_cons_of_mem _ List.mem_cons_self)⟩
    obtain ⟨done, member, asked⟩ := asks
    rcases List.mem_append.mp (whole ▸ List.mem_append_left back member) with inside | behind
    · exact (only done inside).eq asked
    · exact absurd asked (marked.silent done behind)

end Paths

/-! ### What the marks tell -/

/-- There is a file of the key, or the key is among those that were missed. -/
def Known (store : Store) (key : String) (world : World) : Prop :=
  (world.files (store.path key)).content ≠ none ∨ key ∈ world.sets .remote_misses

/-- What a file holds is what it held, unless the action ends a write of it: then it is what was
written, or on an error a beginning of that. -/
theorem exec_file {id : TaskId} {action : Act} {choice : Choice} {before after : World}
    {answer : Answer action} (result : World.exec id action choice before = some (answer, after))
    (path : String) :
    ((after.files path).content = (before.files path).content ∧
      ∀ bytes, action ≠ .write_end path bytes) ∨
    ∃ bytes ok left, (⟨action, answer⟩ : Done Act Answer) = ⟨.write_end path bytes, ok⟩ ∧
      (after.files path).content = some left ∧ left <+: bytes ∧ (ok = true → left = bytes) := by
  cases action with
  | write_begin other bytes =>
    refine Or.inl ⟨?_, nofun⟩
    simp only [World.exec] at result
    split at result
    · split at result
      · cases result
        by_cases same : path = other
        · rw [← same, World.setFile_self]
        · rw [World.setFile_of_ne same]
      · cases result
    · cases result
      rfl
    · cases result
  | write_end other bytes =>
    have different : path ≠ other → ∀ written,
        Act.write_end other bytes ≠ .write_end path written :=
      fun different written same => different (Act.write_end.inj same).1.symm
    simp only [World.exec] at result
    split at result
    · cases result
      by_cases same : path = other
      · subst same
        refine Or.inr ⟨bytes, true, bytes, rfl, ?_, List.prefix_rfl, fun _ => rfl⟩
        rw [World.setFile_self]
      · rw [World.setFile_of_ne same]
        exact Or.inl ⟨rfl, different same⟩
    · split at result
      · rename_i left begins
        cases result
        by_cases same : path = other
        · subst same
          refine Or.inr ⟨bytes, false, left, rfl, ?_, begins, fun whole => ?_⟩
          · rw [World.setFile_self]
          · cases whole
        · rw [World.setFile_of_ne same]
          exact Or.inl ⟨rfl, different same⟩
      · cases result
    · cases result
  | _ =>
    simp only [World.exec] at result
    (repeat' split at result) <;> cases result <;> exact Or.inl ⟨rfl, fun _ same => by cases same⟩

/-- A file that is there stays there. -/
theorem exec_content {id : TaskId} {action : Act} {choice : Choice} {before after : World}
    {answer : Answer action} (result : World.exec id action choice before = some (answer, after))
    {path : String} (there : (before.files path).content ≠ none) :
    (after.files path).content ≠ none := by
  rcases exec_file result path with ⟨same, -⟩ | ⟨bytes, ok, left, -, some, -⟩
  · rw [same]
    exact there
  · rw [some]
    exact nofun

/-- What past actions tell of the state they started in and of the state now. -/
structure Told (start : World) (past : List (TaskId × Done Act Answer)) (now : World) : Prop where
  grows : Grows start now
  content : ∀ path, (start.files path).content ≠ none → (now.files path).content ≠ none
  written : ∀ id path bytes, (id, ⟨.write_end path bytes, true⟩) ∈ past →
    (now.files path).content ≠ none
  inserted : ∀ id set key added, (id, ⟨.insert set key, added⟩) ∈ past → key ∈ now.sets set
  found : ∀ id set key, (id, ⟨.contains set key, true⟩) ∈ past → key ∈ now.sets set
  absent : ∀ id set key, (id, ⟨.contains set key, false⟩) ∈ past → key ∉ start.sets set
  unread : ∀ id path, (id, ⟨.read path, none⟩) ∈ past → (start.files path).content = none
  writes : ∀ entry ∈ past, writes entry.2 = true

theorem Told.step {start before after : World} {past : List (TaskId × Done Act Answer)}
    {id : TaskId}
    {action : Act} {choice : Choice} {answer : Answer action} (told : Told start past before)
    (works : diskWorks before ⟨action, answer⟩ = true)
    (result : World.exec id action choice before = some (answer, after)) :
    Told start (past ++ [(id, ⟨action, answer⟩)]) after := by
  have grows := exec_grows result
  refine ⟨told.grows.trans grows, fun path there => exec_content result (told.content path there),
    ?_, ?_, ?_, ?_, ?_, ?_⟩
  · intro other path bytes member
    rcases List.mem_append.mp member with earlier | now
    · exact exec_content result (told.written other path bytes earlier)
    · cases List.mem_singleton.mp now
      simp only [World.exec] at result
      split at result
      · cases result
        rw [World.setFile_self]
        exact Option.some_ne_none _
      · split at result <;> cases result
      · cases result
  · intro other set key added member
    rcases List.mem_append.mp member with earlier | now
    · exact grows.sets set (told.inserted other set key added earlier)
    · cases List.mem_singleton.mp now
      cases result
      rw [World.addKey_self]
      exact Finset.mem_insert_self _ _
  · intro other set key member
    rcases List.mem_append.mp member with earlier | now
    · exact grows.sets set (told.found other set key earlier)
    · cases List.mem_singleton.mp now
      obtain ⟨held, rfl⟩ := Prod.mk.inj (Option.some_inj.mp result)
      exact of_decide_eq_true held
  · intro other set key member
    rcases List.mem_append.mp member with earlier | now
    · exact told.absent other set key earlier
    · cases List.mem_singleton.mp now
      obtain ⟨missing, rfl⟩ := Prod.mk.inj (Option.some_inj.mp result)
      exact fun held => of_decide_eq_false missing (told.grows.sets set held)
  · intro other path member
    rcases List.mem_append.mp member with earlier | now
    · exact told.unread other path earlier
    · cases List.mem_singleton.mp now
      by_contra there
      exact told.content path there (Option.isNone_iff_eq_none.mp works)
  · intro entry member
    rcases List.mem_append.mp member with earlier | now
    · exact told.writes entry earlier
    · rw [List.mem_singleton.mp now]
      exact writes_of_diskWorks works

section Run

variable {crates : Crates} {proxy : Proxy} {start after : Config Act Answer TaskId World Value}
variable {events : List (Event TaskId Choice Arrival)}

theorem told_of_run (ran : (Job.machine crates proxy).run start events = some after)
    (works : (Job.machine crates proxy).Performing (diskWorks · · = true) start events) :
    Told start.shared ((Job.machine crates proxy).history start events) after.shared := by
  have begins : Told start.shared [] start.shared := by
    refine ⟨.rfl, fun _ => id, ?_, ?_, ?_, ?_, ?_, ?_⟩
    all_goals first
      | exact fun _ _ _ none => absurd none List.not_mem_nil
      | exact fun _ _ _ _ none => absurd none List.not_mem_nil
      | exact fun _ _ none => absurd none List.not_mem_nil
      | exact fun _ none => absurd none List.not_mem_nil
  refine works.preserves ran (Told start.shared) ?_ ?_ begins
  · exact fun past id action choice before answer shared told works result => told.step works result
  · intro past id arrival before program shared told result
    rcases Job.accept_cases crates proxy result with ⟨_, _, _, rfl⟩ | ⟨_, _, _, _, _, _, rfl⟩ |
      ⟨_, _, _, _, _, _, _, _, rfl⟩ <;> exact told

variable {store : Store} {key other : String} {before now : World}
variable {past : List (TaskId × Done Act Answer)} {id : TaskId}

theorem Told.known (told : Told before past now) (known : Known store key before) :
    Known store key now :=
  known.imp (told.content _) fun missed => told.grows.sets .remote_misses missed

/-- A mark that was left on a disk that works makes the key known. -/
theorem Told.known_of_marks (told : Told before past now) {marks : Trail}
    (marked : Marks store key marks) (left : ∀ done ∈ marks, done ∈ pathOf id past) :
    Known store key now := by
  cases marked with
  | wrote writes =>
    cases writes with
    | unopened bytes =>
      have opened := told.writes _ (mem_pathOf.mp (left _ List.mem_cons_self))
      exact absurd opened Bool.false_ne_true
    | written bytes ok =>
      have member := mem_pathOf.mp (left _ (List.mem_cons_of_mem _ List.mem_cons_self))
      have wrote : ok = true := told.writes _ member
      subst wrote
      exact Or.inl (told.written _ _ _ member)
  | missed added =>
    exact Or.inr (told.inserted _ _ _ _ (mem_pathOf.mp (left _ List.mem_cons_self)))

theorem LookedUp.known (lookedUp : LookedUp crates store key (pathOf id past))
    (told : Told before past now) : Known store key now := by
  obtain ⟨path, result, inside, ends, asks⟩ := lookedUp
  obtain ⟨marks, marked, left⟩ := lookup_marks ends asks
  exact told.known_of_marks marked fun done member => inside.subset (left done member)

theorem HasPutFirst.known (hasPut : HasPutFirst store key (pathOf id past))
    (told : Told before past now) : Known store key now := by
  obtain ⟨bytes, path, inside, ends, first⟩ := hasPut
  obtain ⟨writes, wrote, left⟩ := put_writes ends first
  exact told.known_of_marks (.wrote wrote) fun done member => inside.subset (left done member)

/-- Whoever has asked had not known the key, and found it in the index. -/
theorem Asked.unknown (asked : Asked crates store key other (pathOf id past))
    (told : Told before past now) :
    other = key ∧ ¬ Known store key before ∧ key ∈ now.sets .index := by
  obtain ⟨path, rest, inside, takes, asks⟩ := asked
  obtain ⟨same, read, indexed, missed⟩ := get_asked takes asks
  refine ⟨same, ?_, told.found _ _ _ (mem_pathOf.mp (inside.subset indexed))⟩
  rintro (there | marked)
  · exact there (told.unread _ _ (mem_pathOf.mp (inside.subset read)))
  · exact told.absent _ _ _ (mem_pathOf.mp (inside.subset missed)) marked

theorem LookedUp.asked (lookedUp : LookedUp crates store key (pathOf id past)) :
    Asked crates store key key (pathOf id past) := by
  obtain ⟨path, result, inside, ends, asks⟩ := lookedUp
  exact ⟨path, _, inside, ends, asks⟩

/-- Lookups in turn are of different keys, which were not known before and are in the index. -/
theorem InTurn.distinct {lookups : List (List (Event TaskId Choice Arrival) × String)}
    (inTurn : InTurn crates proxy start lookups) {rest : List (Event TaskId Choice Arrival)}
    (ran : (Job.machine crates proxy).run start ((lookups.map Prod.fst).flatten ++ rest) =
      some after)
    (works : (Job.machine crates proxy).Performing (diskWorks · · = true) start
      ((lookups.map Prod.fst).flatten ++ rest)) :
    (lookups.map Prod.snd).Nodup ∧
      (∀ key ∈ lookups.map Prod.snd, ¬ Known proxy.store key start.shared) ∧
      ∀ key ∈ lookups.map Prod.snd, key ∈ after.shared.sets .index := by
  induction lookups generalizing start with
  | nil => exact ⟨List.nodup_nil, fun _ none => absurd none List.not_mem_nil,
      fun _ none => absurd none List.not_mem_nil⟩
  | cons lookup others inductionHypothesis =>
    obtain ⟨front, key⟩ := lookup
    obtain ⟨next, id, ranFront, lookedUp, later⟩ := inTurn
    rw [List.map_cons, List.flatten_cons, List.append_assoc] at ran works
    obtain ⟨worksFront, worksRest⟩ := works.append ranFront
    rw [Machine.run_append, ranFront, Option.bind_some] at ran
    obtain ⟨nodup, unknown, indexed⟩ := inductionHypothesis later ran worksRest
    have told := told_of_run ranFront worksFront
    have toldRest := told_of_run ran worksRest
    obtain ⟨-, notKnown, inIndex⟩ := lookedUp.asked.unknown told
    rw [List.map_cons, List.nodup_cons, List.forall_mem_cons, List.forall_mem_cons]
    refine ⟨⟨fun again => unknown key again (lookedUp.known told), nodup⟩, ⟨notKnown, ?_⟩,
      toldRest.grows.sets .index inIndex, indexed⟩
    exact fun other member known => unknown other member (told.known known)

/-- On a disk that works, a key that was looked up, or whose first `put` has returned, is not asked
for by a `get` that starts later; what is asked for is in the index; and there are no more lookups
that follow each other than keys in the index. -/
theorem lookups_bounded {service : Service} {built : List Built}
    (ran : (Job.machine crates proxy).run (Job.idle proxy (Job.fresh proxy service built)) events =
      some after)
    (works : (Job.machine crates proxy).Performing (diskWorks · · = true)
      (Job.idle proxy (Job.fresh proxy service built)) events) :
    (∀ front back middle key, events = front ++ back →
      (Job.machine crates proxy).run (Job.idle proxy (Job.fresh proxy service built)) front =
        some middle →
      (∃ id, LookedUp crates proxy.store key (Job.trail crates proxy service built front id) ∨
        HasPutFirst proxy.store key (Job.trail crates proxy service built front id)) →
      ∀ id other, ¬ Asked crates proxy.store key other
        (pathOf id ((Job.machine crates proxy).history middle back))) ∧
    (∀ id key other,
      Asked crates proxy.store key other (Job.trail crates proxy service built events id) →
      other = key ∧ other ∈ after.shared.sets .index) ∧
    ∀ lookups rest, events = (lookups.map Prod.fst).flatten ++ rest →
      InTurn crates proxy (Job.idle proxy (Job.fresh proxy service built)) lookups →
      lookups.length ≤ (after.shared.sets .index).card := by
  refine ⟨?_, ?_, ?_⟩
  · rintro front back middle key rfl ranFront ⟨id, marked⟩ later other asked
    obtain ⟨worksFront, worksBack⟩ := works.append ranFront
    rw [Machine.run_append, ranFront, Option.bind_some] at ran
    have told := told_of_run ranFront worksFront
    have known : Known proxy.store key middle.shared :=
      marked.elim (fun lookedUp => lookedUp.known told) fun hasPut => hasPut.known told
    exact (asked.unknown (told_of_run ran worksBack)).2.1 known
  · intro id key other asked
    obtain ⟨rfl, -, indexed⟩ := asked.unknown (told_of_run ran works)
    exact ⟨rfl, indexed⟩
  · rintro lookups rest rfl inTurn
    obtain ⟨nodup, -, indexed⟩ := inTurn.distinct ran works
    calc lookups.length
        = (lookups.map Prod.snd).length := (List.length_map _).symm
      _ = (lookups.map Prod.snd).toFinset.card := (List.toFinset_card_of_nodup nodup).symm
      _ ≤ (after.shared.sets .index).card :=
          Finset.card_le_card fun key member => indexed key (List.mem_toFinset.mp member)

end Run

/-! ### Two jobs that ask -/

/-- The texts of a service that offers an entry. -/
def offeringSamples : Samples :=
  { acceptingSamples with downloads :=
    [(locatedText "https://blob.example/1", ⟨true, "https://blob.example/1"⟩)] }

/-- A manifest of one key is read. -/
def indexedRuns : List (Event TaskId Choice Arrival) :=
  [.arrive (.call 0) .load_index, .run (.call 0) .quiet,
    .run (.call 0) (.replied (some ⟨.OK, locatedText "https://blob.example/1"⟩) .nothing),
    .run (.call 0) (.downloaded (some (.OK, some (utf8 "t-0")))), .run (.call 0) .quiet]

/-- A `get` of the key finds no file and comes to ask the service, which does not answer. -/
def getRuns (number : Nat) : List (Event TaskId Choice Arrival) :=
  [.arrive (.call number) (.get "t-0"), .run (.call number) (.contents none),
    .run (.call number) .quiet, .run (.call number) .quiet, .run (.call number) .quiet,
    .run (.call number) (.replied none .nothing)]

/-- Two tasks put the key, and the second one returns before the first one writes. -/
def overtaken : List (Event TaskId Choice Arrival) :=
  indexedRuns ++ [.arrive (.call 1) (.put "t-0" [0x78]), .run (.call 1) .quiet,
    .arrive (.call 2) (.put "t-0" [0x78]), .run (.call 2) .quiet]

/-- One task puts the key, and the file is written. -/
def storedRuns : List (Event TaskId Choice Arrival) :=
  indexedRuns ++ [.arrive (.call 1) (.put "t-0" [0x78]), .run (.call 1) .quiet,
    .run (.call 1) (.opened true), .run (.call 1) (.written none), .run (.call 1) .quiet,
    .run (.call 1) .quiet]

set_option maxRecDepth 8000 in
theorem storedRuns_put : HasPutFirst exampleProxy.store "t-0"
    (Job.trail (.ofSamples offeringSamples) exampleProxy .empty [] storedRuns (.call 1)) := by
  have path : Job.trail (.ofSamples offeringSamples) exampleProxy .empty [] storedRuns (.call 1) =
      [⟨.insert .queued "t-0", true⟩, ⟨.write_begin "/tmp/cicache/objects/t-0" [0x78], true⟩,
        ⟨.write_end "/tmp/cicache/objects/t-0" [0x78], true⟩, ⟨.insert .packed "t-0", true⟩,
        ⟨.store .pack_dirty, ()⟩] := rfl
  refine ⟨[0x78], _, List.infix_rfl, ?_, path ▸ List.mem_cons_self⟩
  rw [path]
  exact .step (.step (.step (.step (.step .here))))

/-- A `get` asks in its last action so far. -/
theorem asked_of_takes {crates : Crates} {store : Store} {key other version : String}
    {trail : Trail}
    {url token : String} {reply : Option Reply} {rest : Task (Option Bytes)}
    (takes : (store.get crates key).Takes
      (trail ++ [⟨.post url token (.GetCacheEntryDownloadURL other version []), reply⟩]) rest) :
    Asked crates store key other
      (trail ++ [⟨.post url token (.GetCacheEntryDownloadURL other version []), reply⟩]) :=
  ⟨_, rest, List.infix_rfl, takes, _, List.mem_append_right trail List.mem_cons_self, rfl⟩

set_option maxRecDepth 8000 in
/-- The `put` that returns at once leaves no mark, nor does one whose file cannot be read. -/
theorem second_put_unmarked :
    (¬ ∀ (crates : Crates) (proxy : Proxy) (service : Service) (built : List Built)
      (front back : List (Event TaskId Choice Arrival))
      (middle after : Config Act Answer TaskId World Value) (key : String),
      (Job.machine crates proxy).run (Job.idle proxy (Job.fresh proxy service built)) front =
        some middle →
      (Job.machine crates proxy).run middle back = some after →
      (Job.machine crates proxy).Performing (diskWorks · · = true)
        (Job.idle proxy (Job.fresh proxy service built)) (front ++ back) →
      (∃ id, HasPut proxy.store key (Job.trail crates proxy service built front id)) →
      ∀ id, ¬ Asked crates proxy.store key key
        (pathOf id ((Job.machine crates proxy).history middle back))) ∧
    ¬ ∀ (crates : Crates) (proxy : Proxy) (service : Service) (built : List Built)
      (front back : List (Event TaskId Choice Arrival))
      (middle after : Config Act Answer TaskId World Value) (key : String),
      (Job.machine crates proxy).run (Job.idle proxy (Job.fresh proxy service built)) front =
        some middle →
      (Job.machine crates proxy).run middle back = some after →
      (Job.machine crates proxy).Performing (fun _ done => writes done = true)
        (Job.idle proxy (Job.fresh proxy service built)) (front ++ back) →
      (∃ id, HasPutFirst proxy.store key (Job.trail crates proxy service built front id)) →
      ∀ id, ¬ Asked crates proxy.store key key
        (pathOf id ((Job.machine crates proxy).history middle back)) := by
  constructor
  · intro always
    have works := (@Machine.Performing.of_runChecked _ _ _ _ _ _ _ _
      (Job.machine (.ofSamples offeringSamples) exampleProxy)
      (Job.idle exampleProxy (Job.fresh exampleProxy .empty [])) _ (overtaken ++ getRuns 3)
      diskWorks rfl).2
    refine always _ _ _ _ _ _ _ _ "t-0" rfl rfl works ⟨.call 2, ?_⟩ (.call 3) ?_
    · exact ⟨_, [0x78], List.infix_rfl, .step .here⟩
    · exact @asked_of_takes _ _ _ _ _ [_, _, _, _] _ _ _ _
        (.step (.step (.step (.step (.step .here)))))
  · intro always
    have works := (@Machine.Performing.of_runChecked _ _ _ _ _ _ _ _
      (Job.machine (.ofSamples offeringSamples) exampleProxy)
      (Job.idle exampleProxy (Job.fresh exampleProxy .empty [])) _ (storedRuns ++ getRuns 3)
      (fun _ done => writes done) rfl).2
    refine always _ _ _ _ _ _ _ _ "t-0" rfl rfl works ⟨.call 1, storedRuns_put⟩ (.call 3) ?_
    exact @asked_of_takes _ _ _ _ _ [_, _, _, _] _ _ _ _
      (.step (.step (.step (.step (.step .here)))))

/-- The key is looked up and missed. -/
def missedRuns : List (Event TaskId Choice Arrival) :=
  indexedRuns ++ getRuns 1 ++ [.run (.call 1) .quiet]

set_option maxRecDepth 8000 in
/-- The next `get` of a key that was missed does not ask. -/
theorem missed_unasked : ∃ middle after : Config Act Answer TaskId World Value,
    (Job.machine (.ofSamples offeringSamples) exampleProxy).run
      (Job.idle exampleProxy (Job.fresh exampleProxy .empty [])) missedRuns = some middle ∧
    LookedUp (.ofSamples offeringSamples) exampleProxy.store "t-0"
      (Job.trail (.ofSamples offeringSamples) exampleProxy .empty [] missedRuns (.call 1)) ∧
    (Job.machine (.ofSamples offeringSamples) exampleProxy).run middle
      [.arrive (.call 2) (.get "t-0"), .run (.call 2) (.contents none), .run (.call 2) .quiet,
        .run (.call 2) .quiet] = some after ∧
    ∀ id other, ¬ Asked (.ofSamples offeringSamples) exampleProxy.store "t-0" other
      (pathOf id ((Job.machine (.ofSamples offeringSamples) exampleProxy).history middle
        [.arrive (.call 2) (.get "t-0"), .run (.call 2) (.contents none), .run (.call 2) .quiet,
          .run (.call 2) .quiet])) := by
  have lookedUp : LookedUp (.ofSamples offeringSamples) exampleProxy.store "t-0"
      (Job.trail (.ofSamples offeringSamples) exampleProxy .empty [] missedRuns (.call 1)) := by
    refine ⟨[_, _, _, _, ⟨.post _ _ (.GetCacheEntryDownloadURL "t-0" _ []), none⟩, _], none,
      List.infix_rfl, .step (.step (.step (.step (.step (.step .here))))), _,
      .tail _ (.tail _ (.tail _ (.tail _ (.head _)))), rfl⟩
  obtain ⟨ran, works⟩ := @Machine.Performing.of_runChecked _ _ _ _ _ _ _ _
    (Job.machine (.ofSamples offeringSamples) exampleProxy)
    (Job.idle exampleProxy (Job.fresh exampleProxy .empty [])) _
    (missedRuns ++ [.arrive (.call 2) (.get "t-0"), .run (.call 2) (.contents none),
      .run (.call 2) .quiet, .run (.call 2) .quiet]) diskWorks rfl
  exact ⟨_, _, rfl, lookedUp, rfl,
    (lookups_bounded ran works).1 _ _ _ "t-0" rfl rfl ⟨.call 1, Or.inl lookedUp⟩⟩

end Cicache
