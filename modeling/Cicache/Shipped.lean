/-
This file follows the small objects from `put` into the pack. `put` does not look at whether its
file was written, and marks the key as packed in any case; `save_pack` rebuilds the pack from the
files. A write that breaks off leaves the beginning of an object there, and the pack ships it.
`load_pack` marks a key only when its file was written.

Where every write of the file is of the bytes that were put, and succeeds or leaves nothing else
behind, the pack holds these bytes under the key or no record of it. And it holds no record of an
object that is not small, unless a pack that was loaded has one.
-/

import Cicache.Counted
import Cicache.Marking

namespace Cicache

open Text Interleaving Program

/-! ### Files that are written whole -/

/-- A write of the file is of these bytes and succeeds; where the file cannot be opened, there is
none or it holds these bytes. -/
def writesWhole (path : String) (bytes : Bytes) (before : World) : Done Act Answer → Bool
  | ⟨.write_begin other written, opened⟩ =>
      other ≠ path || (written = bytes && (opened || (before.files path).content = none ||
        (before.files path).content = some bytes))
  | ⟨.write_end other written, ok⟩ => other ≠ path || (written = bytes && ok)
  | _ => true

/-- Nor is the file read while it is being written. -/
def readsWhole (path : String) (bytes : Bytes) (before : World) : Done Act Answer → Bool
  | ⟨.read other, _⟩ => other ≠ path || (before.files path).writing = []
  | done => writesWhole path bytes before done

theorem writesWhole_of_readsWhole {path : String} {bytes : Bytes} {before : World}
    {done : Done Act Answer} (reads : readsWhole path bytes before done = true) :
    writesWhole path bytes before done = true := by
  unfold readsWhole at reads
  split at reads
  · rfl
  · exact reads

/-- The write of the file was tried. -/
def Tried (path : String) (past : List (TaskId × Done Act Answer)) : Prop :=
  ∃ id bytes, (id, ⟨.write_begin path bytes, false⟩) ∈ past ∨
    ∃ ok, (id, ⟨.write_end path bytes, ok⟩) ∈ past

theorem PutFirst.widen {store : Store} {key : String} {bytes : Bytes} {part trail : Trail}
    (put : PutFirst store key bytes part) (inside : part <:+: trail) :
    PutFirst store key bytes trail := by
  obtain ⟨path, within, done⟩ := put
  exact ⟨path, within.trans inside, done⟩

theorem PutFirst.tried {store : Store} {key : String} {bytes : Bytes} {id : TaskId}
    {past : List (TaskId × Done Act Answer)} (put : PutFirst store key bytes (pathOf id past)) :
    Tried (store.path key) past := by
  obtain ⟨path, inside, ends, first⟩ := put
  obtain ⟨writes, wrote, left⟩ := put_writes ends first
  have performed : ∀ done ∈ writes, (id, done) ∈ past :=
    fun done member => mem_pathOf.mp (inside.subset (left done member))
  cases wrote with
  | unopened bytes => exact ⟨id, bytes, Or.inl (performed _ List.mem_cons_self)⟩
  | written bytes ok =>
    exact ⟨id, bytes, Or.inr ⟨ok, performed _ (List.mem_cons_of_mem _ List.mem_cons_self)⟩⟩

/-- The file holds these bytes, or there is none. -/
def Complete (path : String) (bytes : Bytes) (world : World) : Prop :=
  (world.files path).content = none ∨ (world.files path).content = some bytes

theorem Complete.eq {path : String} {bytes body : Bytes} {world : World}
    (complete : Complete path bytes world) (idle : (world.files path).writing = [])
    (read : world.Readable path (some body)) : body = bytes := by
  obtain ⟨-, -, held | ⟨whole, writing, -⟩⟩ := read
  · rcases complete with none | same
    · rw [none] at held
      cases held
    · rw [same] at held
      exact (Option.some_inj.mp held).symm
  · rw [idle] at writing
    cases writing

theorem whole_of_ended {path : String} {bytes written : Bytes} {ok : Bool} {before : World}
    (whole : writesWhole path bytes before ⟨.write_end path written, ok⟩ = true) :
    written = bytes ∧ ok = true := by
  simpa [writesWhole] using whole

theorem complete_of_unopened {path : String} {bytes written : Bytes} {before : World}
    (whole : writesWhole path bytes before ⟨.write_begin path written, false⟩ = true) :
    Complete path bytes before := by
  have parts : written = bytes ∧ Complete path bytes before := by
    simpa [writesWhole, Complete] using whole
  exact parts.2

section Step

variable {path : String} {bytes : Bytes} {past : List (TaskId × Done Act Answer)} {id : TaskId}
variable {action : Act} {choice : Choice} {before after : World} {answer : Answer action}

/-- A file that is written whole comes to be complete when a write of it ends, and stays so. -/
theorem complete_or_kept (whole : writesWhole path bytes before ⟨action, answer⟩ = true)
    (result : World.exec id action choice before = some (answer, after)) :
    Complete path bytes after ∨ (after.files path).content = (before.files path).content ∧
      ∀ written, action ≠ .write_end path written := by
  rcases exec_file result path with kept | ⟨written, ok, left, performed, holds, -, all⟩
  · exact Or.inr kept
  · rw [performed] at whole
    obtain ⟨same, succeeded⟩ := whole_of_ended whole
    refine Or.inl (Or.inr (holds.trans ?_))
    rw [all succeeded, same]

theorem Complete.step (complete : Complete path bytes before)
    (whole : writesWhole path bytes before ⟨action, answer⟩ = true)
    (result : World.exec id action choice before = some (answer, after)) :
    Complete path bytes after := by
  rcases complete_or_kept whole result with now | ⟨same, -⟩
  · exact now
  · rw [Complete, same]
    exact complete

theorem complete_step (complete : Tried path past → Complete path bytes before)
    (whole : writesWhole path bytes before ⟨action, answer⟩ = true)
    (result : World.exec id action choice before = some (answer, after)) :
    Tried path (past ++ [(id, ⟨action, answer⟩)]) → Complete path bytes after := by
  rintro ⟨mover, written, began | ⟨ok, ended⟩⟩
  · rcases List.mem_append.mp began with earlier | now
    · exact (complete ⟨mover, written, Or.inl earlier⟩).step whole result
    · cases List.mem_singleton.mp now
      exact (complete_of_unopened whole).step whole result
  · rcases List.mem_append.mp ended with earlier | now
    · exact (complete ⟨mover, written, Or.inr ⟨ok, earlier⟩⟩).step whole result
    · cases List.mem_singleton.mp now
      exact (complete_or_kept whole result).resolve_right fun kept => kept.2 written rfl

end Step

section Run

variable {crates : Crates} {proxy : Proxy}
variable {start middle config after : Config Act Answer TaskId World Value}
variable {events storing back : List (Event TaskId Choice Arrival)} {path : String} {bytes : Bytes}

/-- A file whose writes are all whole is complete once its write was tried. -/
theorem complete_of_run (ran : (Job.machine crates proxy).run start events = some after)
    (whole : (Job.machine crates proxy).Performing (writesWhole path bytes · · = true) start events)
    (tried : Tried path ((Job.machine crates proxy).history start events)) :
    Complete path bytes after.shared := by
  have begins : Tried path [] → Complete path bytes start.shared := by
    rintro ⟨_, _, none | ⟨_, none⟩⟩ <;> cases none
  refine whole.preserves ran (fun past world => Tried path past → Complete path bytes world) ?_ ?_
    begins tried
  · exact fun past id action choice before answer shared complete whole result =>
      complete_step complete whole result
  · intro past id arrival before program shared complete result
    rcases Job.accept_cases crates proxy result with ⟨_, _, _, rfl⟩ | ⟨_, _, _, _, _, _, rfl⟩ |
      ⟨_, _, _, _, _, _, _, _, rfl⟩ <;> exact complete

/-- A complete file that is only written whole, and not read meanwhile, is read as a whole. -/
theorem read_whole (ran : (Job.machine crates proxy).run start events = some after)
    (whole : (Job.machine crates proxy).Performing (readsWhole path bytes · · = true) start events)
    (complete : Complete path bytes start.shared) {id : TaskId} {body : Bytes}
    (read : (id, ⟨.read path, some body⟩) ∈ (Job.machine crates proxy).history start events) :
    body = bytes := by
  have kept := whole.preserves ran
    (fun past world => Complete path bytes world ∧
      ∀ id body, (id, ⟨.read path, some body⟩) ∈ past → body = bytes) ?_ ?_
    ⟨complete, fun _ _ none => absurd none List.not_mem_nil⟩
  · exact kept.2 id body read
  · intro past id action choice before answer shared kept whole result
    refine ⟨kept.1.step (writesWhole_of_readsWhole whole) result, fun other body member => ?_⟩
    rcases List.mem_append.mp member with earlier | now
    · exact kept.2 other body earlier
    · cases List.mem_singleton.mp now
      have idle : (before.files path).writing = [] := by
        simpa [readsWhole] using whole
      cases choice with
      | contents result' =>
        simp only [Job.machine, World.exec] at result
        split at result
        · rename_i readable
          cases result
          exact kept.1.eq idle readable
        · cases result
      | _ => cases result
  · intro past id arrival before program shared kept result
    rcases Job.accept_cases crates proxy result with ⟨_, _, _, rfl⟩ | ⟨_, _, _, _, _, _, rfl⟩ |
      ⟨_, _, _, _, _, _, _, _, rfl⟩ <;> exact kept

variable {front : List (Event TaskId Choice Arrival)} {service : Service} {built : List Built}
variable {number : Nat} {value : Value} {key : String}

/-- What a flush has performed is what it performed from its arrival on. -/
theorem trail_of_arrival
    (ranFront : (Job.machine crates proxy).run
      (Job.idle proxy (Job.fresh proxy service built)) front = some config)
    (ran : (Job.machine crates proxy).run config (.arrive (.call number) .flush :: back) =
      some after) :
    Job.trail crates proxy service built (front ++ .arrive (.call number) .flush :: back)
        (.call number) =
      pathOf (.call number)
        ((Job.machine crates proxy).history config (.arrive (.call number) .flush :: back)) := by
  rw [Job.trail, Machine.history_append ranFront, pathOf_append]
  have free : config.tasks (.call number) = none := by
    obtain ⟨next, stepped, -⟩ := Option.bind_eq_some_iff.mp ran
    cases (Machine.step_eq_some_iff ..).mp stepped with
    | arrived free result => exact free
  rcases Machine.arrived_or ranFront (@again_eq_none crates proxy (.call number) (by rintro ⟨⟩)) rfl
    with ⟨-, nothing, -⟩ | ⟨_, _, _, _, _, _, -, -, -, _, there, -⟩
  · rw [nothing, List.nil_append]
  · rw [free] at there
    cases there

/-- What the flush packs it has found in the list of the marked keys. -/
theorem listed_of_packedObjects {trail : Trail} {object : Pack.Object}
    (member : object ∈ packedObjects trail) :
    ∃ keys, ⟨.iter .packed, keys⟩ ∈ trail ∧ object.1 ∈ keys := by
  have later : packing trail ⊆ trail := (List.dropWhile_sublist _).subset
  unfold packedObjects at member
  split at member
  · rename_i keys rest whole
    obtain ⟨⟨key, content⟩, inside, same⟩ := List.mem_filterMap.mp member
    obtain ⟨body, -, rfl⟩ := Option.map_eq_some_iff.mp same
    refine ⟨keys, later ?_, (List.mem_insertionSort _).mp (List.of_mem_zip inside).1⟩
    rw [whole]
    exact List.mem_cons_of_mem _ List.mem_cons_self
  · cases member

/-- What was listed stays. -/
theorem kept_of_listed {start : Config Act Answer TaskId World Value}
    (ran : (Job.machine crates proxy).run start events = some after) {id : TaskId} {set : KeySet}
    {keys : List String} {key : String}
    (listed : (id, ⟨.iter set, keys⟩) ∈ (Job.machine crates proxy).history start events)
    (member : key ∈ keys) : key ∈ after.shared.sets set := by
  obtain ⟨front, event, back, config, rfl, ranFront, performed⟩ := Machine.exists_performed listed
  obtain ⟨choice, next, shared, rfl, task, result⟩ := Machine.performed_eq_some performed
  have same : keys.toFinset = config.shared.sets set :=
    @listed_of_iter id _ _ _ _ _ result
  rw [Machine.run_append, ranFront, Option.bind_some] at ran
  refine (run_grows ran).sets set ?_
  rw [← same, List.mem_toFinset]
  exact member

/-- The object is a small one, or its key is in a pack that was loaded. -/
def Packable (crates : Crates) (proxy : Proxy) (service : Service) (built : List Built)
    (events : List (Event TaskId Choice Arrival)) (key : String) (bytes : Bytes) : Prop :=
  bytes.length < proxy.store.config.pack_threshold ∨
    ∃ id fresh, .arrive id .load_pack ∈ events ∧
      (id, ⟨.insert .packed key, fresh⟩) ∈ (Job.machine crates proxy).history
        (Job.idle proxy (Job.fresh proxy service built)) events

/-- A pack holds the complete bytes of a `put` under its key, or no record of it, where every write
of the file was whole. Of an object that is neither small nor in a loaded pack it holds none,
however its file was written. -/
theorem shipped_whole
    (ranFront : (Job.machine crates proxy).run
      (Job.idle proxy (Job.fresh proxy service built)) front = some middle)
    (ranStoring : (Job.machine crates proxy).run middle storing = some config)
    (ran : (Job.machine crates proxy).run config (.arrive (.call number) .flush :: back) =
      some after)
    (stored : ∃ id, PutFirst proxy.store key bytes
      (pathOf id ((Job.machine crates proxy).history middle storing)))
    (whole : Packable crates proxy service built
      (front ++ storing ++ .arrive (.call number) .flush :: back) key bytes →
      (Job.machine crates proxy).Performing
        (writesWhole (proxy.store.path key) bytes · · = true) middle storing)
    (reads : Packable crates proxy service built
      (front ++ storing ++ .arrive (.call number) .flush :: back) key bytes →
      (Job.machine crates proxy).Performing
        (readsWhole (proxy.store.path key) bytes · · = true) config
        (.arrive (.call number) .flush :: back))
    (ended : after.tasks (.call number) = some (.finish value)) :
    ∀ url body status objects found,
      ⟨.put_blob url body, status⟩ ∈ packing (Job.trail crates proxy service built
        (front ++ storing ++ .arrive (.call number) .flush :: back) (.call number)) →
      Pack.IsPack body objects → (key, found) ∈ objects → found = bytes := by
  intro url body status objects found sent isPack member
  obtain ⟨id, put⟩ := stored
  have ranStored : (Job.machine crates proxy).run (Job.idle proxy (Job.fresh proxy service built))
      (front ++ storing) = some config := by
    rw [Machine.run_append, ranFront, Option.bind_some, ranStoring]
  have ranWhole : (Job.machine crates proxy).run (Job.idle proxy (Job.fresh proxy service built))
      (front ++ storing ++ .arrive (.call number) .flush :: back) = some after := by
    rw [Machine.run_append, ranStored, Option.bind_some, ran]
  have flushed : .arrive (.call number) .flush ∈
      front ++ storing ++ .arrive (.call number) .flush :: back :=
    List.mem_append_right _ List.mem_cons_self
  obtain ⟨onDisk, packed⟩ := flush_packed ranWhole flushed ended
  have same := packed url body status sent
  subst same
  have inside := isPack.unique
    (Pack.isPack_encode _ (packedObjects_small ranWhole flushed ended)) ▸ member
  have packedObject := (Pack.keep_sublist _ _ _).subset inside
  -- What is packed was marked, so the object is one that can be.
  have packable : Packable crates proxy service built
      (front ++ storing ++ .arrive (.call number) .flush :: back) key bytes := by
    obtain ⟨keys, listed, there⟩ := listed_of_packedObjects packedObject
    have inside : pathOf id ((Job.machine crates proxy).history middle storing) <:+:
        pathOf id ((Job.machine crates proxy).history
          (Job.idle proxy (Job.fresh proxy service built))
          (front ++ storing ++ .arrive (.call number) .flush :: back)) := by
      rw [Machine.history_append ranStored, Machine.history_append ranFront, pathOf_append,
        pathOf_append]
      exact ⟨_, _, rfl⟩
    exact Marking.small_or_unpacked ranWhole (put.widen inside)
      (kept_of_listed ranWhole (mem_pathOf.mp listed) there)
  have complete := complete_of_run ranStoring (whole packable) put.tried
  have readBack := (List.dropWhile_sublist _).subset (onDisk (key, found) packedObject)
  rw [trail_of_arrival ranStored ran] at readBack
  exact read_whole ran (reads packable) complete (mem_pathOf.mp readBack)

end Run

/-! ### A write that breaks off -/

/-- Two bytes are put, and the end of the write leaves something of them in the file. -/
def storeRuns (left : Option Bytes) : List (Event TaskId Choice Arrival) :=
  [.arrive (.call 0) (.put "t-0" [0x78, 0x79]), .run (.call 0) .quiet,
    .run (.call 0) (.opened true),
    .run (.call 0) (.written left), .run (.call 0) .quiet, .run (.call 0) .quiet]

/-- A flush finds bytes in the file and stores the pack. -/
def shipRuns (held : Bytes) : List (Event TaskId Choice Arrival) :=
  [.run (.call 1) .quiet, .run (.call 1) .quiet, .run .uploader .quiet, .run .uploader .quiet,
    .run (.call 1) .quiet, .run (.call 1) .quiet, .run (.call 1) .quiet,
    .run (.call 1) (.listing ["t-0"]), .run (.call 1) (.contents (some held)),
    .run (.call 1) (.clock 5), .run (.call 1) .quiet,
    .run (.call 1) (.replied (some ⟨.OK, createdText "https://blob.example/0"⟩) .nothing),
    .run (.call 1) (.uploaded (some .OK) true),
    .run (.call 1) (.replied (some ⟨.OK, finalizedText⟩) .nothing), .run (.call 1) .quiet]

set_option maxRecDepth 8000 in
/-- What a failed write has left of an object is shipped under its key. -/
theorem torn_shipped :
    ¬ ∀ (crates : Crates) (proxy : Proxy) (service : Service) (built : List Built)
      (front storing back : List (Event TaskId Choice Arrival))
      (middle config after : Config Act Answer TaskId World Value) (key : String) (bytes : Bytes)
      (number : Nat) (value : Value),
      (Job.machine crates proxy).run (Job.idle proxy (Job.fresh proxy service built)) front =
        some middle →
      (Job.machine crates proxy).run middle storing = some config →
      (Job.machine crates proxy).run config (.arrive (.call number) .flush :: back) = some after →
      (∃ id, PutFirst proxy.store key bytes
        (pathOf id ((Job.machine crates proxy).history middle storing))) →
      after.tasks (.call number) = some (.finish value) →
      ∀ url body status objects found,
        ⟨.put_blob url body, status⟩ ∈ packing (Job.trail crates proxy service built
          (front ++ storing ++ .arrive (.call number) .flush :: back) (.call number)) →
        Pack.IsPack body objects → (key, found) ∈ objects → found = bytes := by
  intro always
  have small : ∀ object ∈ [(("t-0", [0x78]) : Pack.Object)],
      (utf8 object.1).length < 2 ^ 32 ∧ object.2.length < 2 ^ 64 := by
    rw [List.forall_mem_singleton]
    decide
  have same := always (.ofSamples acceptingSamples) exampleProxy .empty [] []
    (storeRuns (some [0x78]))
    (shipRuns [0x78]) _ _ _ "t-0" [0x78, 0x79] 1 .done rfl rfl rfl ⟨.call 0, ?_⟩ rfl
    "https://blob.example/0" (Pack.encode [("t-0", [0x78])] 1048576) (some .OK) _ [0x78] ?_
    (Pack.isPack_encode _ small) ?_
  · cases same
  · exact ⟨_, List.infix_rfl, .step (.step (.step (.step (.step .here)))), List.mem_cons_self⟩
  · have path : packing (Job.trail (.ofSamples acceptingSamples) exampleProxy .empty []
        ([] ++ storeRuns (some [0x78]) ++ .arrive (.call 1) .flush :: shipRuns [0x78]) (.call 1)) =
        [⟨.load .pack_dirty, true⟩, ⟨.iter .packed, ["t-0"]⟩,
          ⟨.read "/tmp/cicache/objects/t-0", some [0x78]⟩, ⟨.now, (5 : Nat)⟩,
          ⟨.load .exhausted, false⟩,
            ⟨.post _ _ (.CreateCacheEntry _ _), some ⟨.OK, createdText "https://blob.example/0"⟩⟩,
          ⟨.put_blob "https://blob.example/0" (Pack.encode [("t-0", [0x78])] 1048576), some .OK⟩,
          ⟨.post _ _ (.FinalizeCacheEntryUpload _ _ _), some ⟨.OK, finalizedText⟩⟩,
          ⟨.record_packed 1 20, ()⟩] := rfl
    rw [path]
    simp
  · exact List.mem_singleton_self _

set_option maxRecDepth 8000 in
/-- An object that was written whole is shipped as it was put. -/
theorem whole_shipped :
    (∃ url status, ⟨.put_blob url (Pack.encode [("t-0", [0x78, 0x79])] 1048576), status⟩ ∈
      packing (Job.trail (.ofSamples acceptingSamples) exampleProxy .empty []
        ([] ++ storeRuns none ++ .arrive (.call 1) .flush :: shipRuns [0x78, 0x79]) (.call 1))) ∧
    ∀ url body status objects found,
      ⟨.put_blob url body, status⟩ ∈ packing (Job.trail (.ofSamples acceptingSamples) exampleProxy
        .empty [] ([] ++ storeRuns none ++ .arrive (.call 1) .flush :: shipRuns [0x78, 0x79])
        (.call 1)) →
      Pack.IsPack body objects → ("t-0", found) ∈ objects → found = [0x78, 0x79] := by
  constructor
  · have path : packing (Job.trail (.ofSamples acceptingSamples) exampleProxy .empty []
        ([] ++ storeRuns none ++ .arrive (.call 1) .flush :: shipRuns [0x78, 0x79]) (.call 1)) =
        [⟨.load .pack_dirty, true⟩, ⟨.iter .packed, ["t-0"]⟩,
          ⟨.read "/tmp/cicache/objects/t-0", some [0x78, 0x79]⟩, ⟨.now, (5 : Nat)⟩,
          ⟨.load .exhausted, false⟩,
            ⟨.post _ _ (.CreateCacheEntry _ _), some ⟨.OK, createdText "https://blob.example/0"⟩⟩,
          ⟨.put_blob "https://blob.example/0" (Pack.encode [("t-0", [0x78, 0x79])] 1048576),
            some .OK⟩,
          ⟨.post _ _ (.FinalizeCacheEntryUpload _ _ _), some ⟨.OK, finalizedText⟩⟩,
          ⟨.record_packed 1 21, ()⟩] := rfl
    rw [path]
    exact ⟨"https://blob.example/0", some .OK, by simp⟩
  · obtain ⟨ranStoring, whole⟩ := @Machine.Performing.of_runChecked _ _ _ _ _ _ _ _
      (Job.machine (.ofSamples acceptingSamples) exampleProxy)
      (Job.idle exampleProxy (Job.fresh exampleProxy .empty [])) _ (storeRuns none)
      (writesWhole "/tmp/cicache/objects/t-0" [0x78, 0x79]) rfl
    have put : PutFirst exampleProxy.store "t-0" [0x78, 0x79] (pathOf (.call 0)
        ((Job.machine (.ofSamples acceptingSamples) exampleProxy).history
          (Job.idle exampleProxy (Job.fresh exampleProxy .empty [])) (storeRuns none))) :=
      ⟨_, List.infix_rfl, .step (.step (.step (.step (.step .here)))), List.mem_cons_self⟩
    refine shipped_whole rfl ranStoring rfl ⟨_, put⟩ (fun _ => whole) (fun _ => ?_) rfl
    exact (@Machine.Performing.of_runChecked _ _ _ _ _ _ _ _ _ _ _ _
      (readsWhole "/tmp/cicache/objects/t-0" [0x78, 0x79]) rfl).2

end Cicache
