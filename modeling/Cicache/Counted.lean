/-
This file settles what the summary says about the pack. The counters of the pack are set whenever
storing it did not fail, and declining to store it is no failure; they count the objects that were
given to `encode`, which leaves out what does not fit. So the summary tells the truth exactly when
the service did not decline the pack and the pack it confirmed left nothing out; and only then does
`stop` warn that nothing reached the service whenever that is so.
-/

import Cicache.Putting
import Cicache.Teardown

namespace Cicache

open Text Interleaving Program

/-! ### The warning -/

/-- The warning of `stop` that nothing reached the service. -/
def unreached (stored : Nat) : String :=
  "::warning title=cicache::" ++ Nat.repr stored ++ " responses were eligible to cache but none " ++
    "reached the cache service; later jobs will start cold."

/-- What `stop` warns of when it has read this summary. -/
def stop_warning (summary : Summary) : Option String :=
  if 0 < summary.stored ∧ summary.entries_stored = 0 ∧ summary.packed = 0 then
    some (unreached summary.stored)
  else if 0 < summary.uploads_failed then
    some ("::warning title=cicache::" ++ Nat.repr summary.uploads_failed ++ " of " ++
      Nat.repr (summary.uploads_failed + summary.entries_stored) ++
      " objects failed to reach the cache service.")
  else none

/-! ### What a flush tells of the pack -/

/-- The flush comes to saving the pack. -/
def checksPack : Done Act Answer → Bool
  | ⟨.load .pack_dirty, _⟩ => true
  | _ => false

/-- What `save_pack` performed of what `flush` did. -/
def packing (trail : Trail) : Trail := trail.dropWhile fun done => !checksPack done

/-- What a file was found to hold. -/
def content : Done Act Answer → Option (Option Bytes)
  | ⟨.read _, bytes⟩ => some bytes
  | _ => none

/-- The objects `save_pack` found on disk. -/
def packedObjects (trail : Trail) : List Pack.Object :=
  match packing trail with
  | _ :: ⟨.iter .packed, keys⟩ :: rest => found (sort keys) (rest.filterMap content)
  | _ => []

section Summaries

variable (crates : Crates) (serde : Command.Serde)

/-- The service confirmed that it stored the pack with these bytes. -/
def PackStored (trail : Trail) (body : Bytes) : Prop :=
  (∃ url status, ⟨.put_blob url body, status⟩ ∈ packing trail) ∧
    ∃ done ∈ packing trail, Acknowledges crates done

/-- The summary says of the pack what the service confirmed, and makes `stop` warn when the service
confirmed nothing, neither in an upload nor in the flush. -/
structure Truthful (trail : TaskId → Trail) (flusher : TaskId) (stats : Summary) : Prop where
  confirmed : ∀ body, PackStored crates (trail flusher) body →
    (∃ objects, Pack.IsPack body objects ∧ stats.packed = objects.length) ∧
      stats.packed_bytes = body.length
  unconfirmed : (∀ body, ¬ PackStored crates (trail flusher) body) →
    stats.packed = 0 ∧ stats.packed_bytes = 0
  warned : (∀ number, ∀ done ∈ trail (.upload number), ¬ Acknowledges crates done) →
    (∀ body, ¬ PackStored crates (trail flusher) body) →
    stats.entries_stored = 0 ∧ stats.packed = 0 ∧ (0 < stats.stored →
      (serde.summary_from_str (serde.summary_to_vec stats)).bind stop_warning =
        some (unreached stats.stored))

end Summaries

/-! ### The counters of the pack -/

/-- What an action makes of the counters of the pack. -/
def packs (counts : Nat × Nat) : Done Act Answer → Nat × Nat
  | ⟨.record_packed objects bytes, _⟩ => (objects, bytes)
  | _ => counts

/-- Actions that leave the counters of the pack as they are. -/
def Uncounted (action : Act) : Prop := ∀ objects bytes, action ≠ .record_packed objects bytes

theorem packs_of_uncounted {done : Done Act Answer} (uncounted : Uncounted done.action)
    (counts : Nat × Nat) : packs counts done = counts := by
  unfold packs
  split
  · exact absurd rfl (uncounted _ _)
  · rfl

theorem foldl_packs (trail : Trail) (uncounted : ∀ done ∈ trail, Uncounted done.action)
    (counts : Nat × Nat) : trail.foldl packs counts = counts := by
  induction trail with
  | nil => rfl
  | cons done rest inductionHypothesis =>
    rw [List.foldl_cons, packs_of_uncounted (uncounted _ List.mem_cons_self)]
    exact inductionHypothesis fun other member => uncounted other (List.mem_cons_of_mem _ member)

theorem Requesting.uncounted {action : Act} (requesting : Requesting action) :
    Uncounted action := by
  rintro objects bytes rfl
  rcases requesting with passes | retrieves | queues | ⟨_, _, _, _, same⟩
  · exact passes
  · exact retrieves
  · exact queues
  · cases same

theorem Asking.uncounted {action : Act} (asking : Asking action) : Uncounted action :=
  asking.retrieving.requesting.uncounted

/-- The actions of `flush` before it comes to the pack. -/
def Preparing (action : Act) : Prop := Uncounted action ∧ action ≠ .load .pack_dirty

theorem Asking.preparing {action : Act} (asking : Asking action) : Preparing action := by
  refine ⟨asking.uncounted, ?_⟩
  rintro rfl
  exact absurd asking nofun

theorem save_index_preparing (crates : Crates) (store : Store) :
    (store.save_index crates).Within Preparing := by
  unfold Store.save_index
  split
  · exact trivial
  · refine .act ⟨nofun, nofun⟩ fun dirty => ?_
    split
    · refine .act ⟨nofun, nofun⟩ fun keys =>
        ((put_scoped_asking crates _ _ _ _ _ _).mono fun _ => Asking.preparing).bind fun stored =>
          ?_
      cases stored <;> exact trivial
    · exact trivial

/-- A flush prepares, and then saves the pack. -/
theorem flush_finishes {crates : Crates} {store : Store} {path : Trail}
    (ends : (store.flush crates).Finishes path ()) : ∃ front back, path = front ++ back ∧
      (∀ done ∈ front, Preparing done.action) ∧ (store.save_pack crates).Finishes back () := by
  unfold Store.flush at ends
  obtain ⟨took, behindSender, rfl, later⟩ := (finishes_act ..).mp ends
  obtain ⟨handle, behindHandle, rfl, joins⟩ := (finishes_act ..).mp later
  obtain ⟨awaited, _, behindUploads, rfl, awaits, indexes⟩ := (finishes_bind ..).mp joins
  obtain ⟨saved, _, back, rfl, saves, packs⟩ := (finishes_bind ..).mp indexes
  have waits : (Store.await_uploader handle).Within Preparing := by
    unfold Store.await_uploader
    split
    · exact .act ⟨nofun, nofun⟩ fun _ => trivial
    · exact trivial
  refine ⟨⟨.take_sender, took⟩ :: ⟨.take_uploader, handle⟩ :: (awaited ++ saved), back,
    ?_, ?_, packs⟩
  · simp only [List.cons_append, List.append_assoc]
  · rw [List.forall_mem_cons, List.forall_mem_cons, List.forall_mem_append]
    exact ⟨⟨nofun, nofun⟩, ⟨nofun, nofun⟩, Takes.allowed awaits waits,
      Takes.allowed saves (save_index_preparing crates store)⟩

/-! ### The paths of a flush -/

section Flush

variable {crates : Crates} {store : Store} {gha : GhaCache}

/-- The actions by which a call to the service tells what became of it. -/
def Telling : Act → Prop
  | .load .exhausted | .post _ _ _ | .put_blob _ _ => True
  | _ => False

theorem Acknowledges.telling {done : Done Act Answer} (acknowledges : Acknowledges crates done) :
    Telling done.action := by
  unfold Acknowledges at acknowledges
  split at acknowledges
  · exact trivial
  · exact acknowledges.elim

theorem Refuses.telling {done : Done Act Answer} (refuses : Refuses crates done) :
    Telling done.action := by
  unfold Refuses at refuses
  split at refuses
  · exact trivial
  · exact trivial
  · exact refuses.elim

theorem mem_readings {keys : List String} {contents : List (Option Bytes)} {done : Done Act Answer}
    (member : done ∈ readings store keys contents) :
    ∃ key content, (key, content) ∈ keys.zip contents ∧
      done = ⟨.read (store.path key), content⟩ := by
  rw [readings, ← List.map_uncurry_zip_eq_zipWith, List.mem_map] at member
  obtain ⟨⟨key, content⟩, inside, rfl⟩ := member
  exact ⟨key, content, inside, rfl⟩

/-- An object that was found was read. -/
theorem read_of_mem_found {keys : List String} {contents : List (Option Bytes)}
    {object : Pack.Object} (member : object ∈ found keys contents) :
    ⟨.read (store.path object.1), some object.2⟩ ∈ readings store keys contents := by
  obtain ⟨⟨key, content⟩, inside, same⟩ := List.mem_filterMap.mp member
  obtain ⟨body, rfl, rfl⟩ := Option.map_eq_some_iff.mp same
  rw [readings, ← List.map_uncurry_zip_eq_zipWith]
  exact List.mem_map.mpr ⟨_, inside, rfl⟩

theorem filterMap_readings {keys : List String} {contents : List (Option Bytes)}
    (length : contents.length = keys.length) :
    (readings store keys contents).filterMap content = contents := by
  induction keys generalizing contents with
  | nil => exact (List.eq_nil_of_length_eq_zero length).symm
  | cons key rest inductionHypothesis =>
    cases contents with
    | nil => cases length
    | cons content others =>
      show content :: (readings store rest others).filterMap _ = _
      rw [inductionHypothesis (Nat.succ.inj length)]

theorem calls_asking (method : String) (request : Request) (reply : Option Reply) :
    ∀ done ∈ calls gha method request reply, Asking done.action := by
  rw [calls, List.forall_mem_cons]
  refine ⟨trivial, fun done member => ?_⟩
  split at member
  · rw [List.mem_singleton.mp member]
    exact rfl
  · cases member

theorem Puts.asking {key : String} {data : Bytes} {path : Trail} {result : Except String Bool}
    (puts : Puts crates gha key data path result) : ∀ done ∈ path, Asking done.action := by
  have creates : ∀ reply, ∀ done ∈ creates gha key reply, Asking done.action := by
    intro reply
    rw [Cicache.creates, List.forall_mem_cons]
    exact ⟨rfl, calls_asking _ _ _⟩
  cases puts with
  | exhausted =>
    rw [List.forall_mem_singleton]
    exact rfl
  | created made => exact creates _
  | transferred made failed =>
    rw [List.forall_mem_append, List.forall_mem_singleton]
    exact ⟨creates _, trivial⟩
  | finalized made arrived =>
    rw [List.forall_mem_append, List.forall_mem_cons]
    exact ⟨creates _, trivial, calls_asking _ _ _⟩

theorem filterMap_content {trail : Trail}
    (unread : ∀ done ∈ trail, ∀ path, done.action ≠ .read path) :
    trail.filterMap content = [] := by
  rw [List.filterMap_eq_nil_iff]
  intro done member
  unfold content
  split
  · exact absurd rfl (unread _ member _)
  · rfl

/-- What the counters of the pack are behind `save_pack`, and what its path tells. -/
inductive Saved (crates : Crates) (store : Store) (trail : Trail) : Nat × Nat → Prop where
  | nothing (unrefused : ∀ done ∈ packing trail, ¬ Refuses crates done)
      (unconfirmed : ∀ done ∈ packing trail, ¬ Acknowledges crates done) :
      Saved crates store trail (0, 0)
  | declined (some : packedObjects trail ≠ [])
      (refused : ∃ done ∈ packing trail, Refuses crates done)
      (unconfirmed : ∀ done ∈ packing trail, ¬ Acknowledges crates done) (bytes : Nat) :
      Saved crates store trail ((packedObjects trail).length, bytes)
  | confirmed (some : packedObjects trail ≠ [])
      (unrefused : ∀ done ∈ packing trail, ¬ Refuses crates done)
      (confirmed : ∃ done ∈ packing trail, Acknowledges crates done)
      (stored : ∃ url status, ⟨.put_blob url
        (Pack.encode (packedObjects trail) store.config.pack_limit), status⟩ ∈ packing trail) :
      Saved crates store trail ((packedObjects trail).length,
        (Pack.encode (packedObjects trail) store.config.pack_limit).length)

theorem packing_of_preparing {front : Trail} (preparing : ∀ done ∈ front, Preparing done.action)
    (back : Trail) : packing (front ++ back) = packing back := by
  refine List.dropWhile_append_of_pos fun done member => ?_
  have other := (preparing done member).2
  unfold checksPack
  split
  · exact absurd rfl other
  · rfl

theorem filterMap_behind {key : String} {data : Bytes} {stamp size : Nat} {puts : Trail}
    {result : Except String Bool} {objects : List Pack.Object}
    (stored : Puts crates gha key data puts result) :
    (⟨.now, stamp⟩ :: (puts ++ records objects size result) : Trail).filterMap content = [] := by
  refine filterMap_content fun done member path same => ?_
  rcases List.mem_cons.mp member with rfl | later
  · cases same
  · rcases List.mem_append.mp later with inside | recorded
    · have asking := stored.asking done inside
      rw [same] at asking
      exact asking
    · unfold records at recorded
      split at recorded
      · rw [List.mem_singleton.mp recorded] at same
        cases same
      · cases recorded

/-- What is told on the path of a save is told by the call that stores the pack. -/
theorem exists_mem_saved (kind : Done Act Answer → Prop)
    (tells : ∀ done, kind done → Telling done.action) {keys : List String} {dirty : Bool}
    {contents : List (Option Bytes)} {stamp size : Nat} {puts : Trail}
    {result : Except String Bool} {objects : List Pack.Object} :
    (∃ done ∈ (⟨.load .pack_dirty, dirty⟩ :: ⟨.iter .packed, keys⟩ ::
      (readings store (sort keys) contents ++ ⟨.now, stamp⟩ ::
        (puts ++ records objects size result)) :
      Trail), kind done) ↔ ∃ done ∈ puts, kind done := by
  have silent : ∀ (action : Act) (answer : Answer action), ¬ Telling action →
      ¬ kind ⟨action, answer⟩ := fun _ _ other is => other (tells _ is)
  have reads : ¬ ∃ done ∈ readings store (sort keys) contents, kind done := by
    rintro ⟨done, member, is⟩
    obtain ⟨key, content, -, rfl⟩ := mem_readings member
    exact silent (.read _) _ not_false is
  have recorded : ¬ ∃ done ∈ records objects size result, kind done := by
    rintro ⟨done, member, is⟩
    unfold records at member
    split at member
    · rw [List.mem_singleton.mp member] at is
      exact silent (.record_packed _ _) _ not_false is
    · cases member
  rw [List.exists_mem_cons_iff, List.exists_mem_cons_iff, exists_mem_append,
    List.exists_mem_cons_iff,
    exists_mem_append, or_iff_right (silent (.load .pack_dirty) dirty not_false),
    or_iff_right (silent (.iter .packed) keys not_false), or_iff_right reads,
    or_iff_right (silent .now stamp not_false), or_iff_left recorded]

/-- The part of the trail behind the preparations is the path through `save_pack`. -/
theorem Saves.packing {path front : Trail} (saves : Saves crates store gha path)
    (preparing : ∀ done ∈ front, Preparing done.action) : packing (front ++ path) = path := by
  rw [packing_of_preparing preparing]
  cases saves <;> exact List.dropWhile_cons_of_neg nofun

theorem packedObjects_saved {path front : Trail} {keys : List String}
    {contents : List (Option Bytes)} {objects : List Pack.Object} {stamp size : Nat} {puts : Trail}
    {key : String} {body : Bytes} {result : Except String Bool}
    (whole : Cicache.packing (front ++ path) = ⟨.load .pack_dirty, true⟩ :: ⟨.iter .packed, keys⟩ ::
      (readings store (sort keys) contents ++ ⟨.now, stamp⟩ ::
        (puts ++ records objects size result)))
    (length : contents.length = (sort keys).length)
    (stored : Puts crates gha key body puts result) :
    packedObjects (front ++ path) = found (sort keys) contents := by
  unfold packedObjects
  rw [whole]
  show found (sort keys) ((_ ++ _ : Trail).filterMap content) = _
  rw [List.filterMap_append, filterMap_readings length, filterMap_behind stored, List.append_nil]

/-- The bytes that are sent are the pack of the objects on disk. -/
theorem Saves.sent {path front : Trail} (saves : Saves crates store gha path)
    (preparing : ∀ done ∈ front, Preparing done.action) {url : String} {body : Bytes}
    {status : Option StatusCode} (member : ⟨.put_blob url body, status⟩ ∈ path) :
    body = Pack.encode (packedObjects (front ++ path)) store.config.pack_limit := by
  have whole := saves.packing preparing
  cases saves with
  | clean => cases List.mem_singleton.mp member
  | empty length none =>
    rcases List.mem_cons.mp member with same | member
    · cases same
    · rcases List.mem_cons.mp member with same | member
      · cases same
      · obtain ⟨_, _, _, same⟩ := mem_readings member
        cases same
  | saved length reads some encoded stored =>
    have sends := (exists_mem_saved (fun done => done = ⟨.put_blob url body, status⟩)
      (by rintro done rfl; exact trivial)).mp ⟨_, member, rfl⟩
    obtain ⟨_, inside, rfl⟩ := sends
    rw [stored.data_of_sent inside, packedObjects_saved whole length stored, reads, encoded]

/-- The objects on disk are what was read there. -/
theorem Saves.read {path front : Trail} (saves : Saves crates store gha path)
    (preparing : ∀ done ∈ front, Preparing done.action) {object : Pack.Object}
    (member : object ∈ packedObjects (front ++ path)) :
    ⟨.read (store.path object.1), some object.2⟩ ∈ path := by
  have whole := saves.packing preparing
  cases saves with
  | clean =>
    rw [packedObjects, whole] at member
    cases member
  | @empty keys contents length none =>
    have objects : packedObjects (front ++ ⟨.load .pack_dirty, true⟩ :: ⟨.iter .packed, keys⟩ ::
        readings store (sort keys) contents) = [] := by
      unfold packedObjects
      rw [whole]
      show found (sort keys) ((readings store (sort keys) contents).filterMap content) = _
      rw [filterMap_readings length, none]
    rw [objects] at member
    cases member
  | saved length reads some encoded stored =>
    rw [packedObjects_saved whole length stored] at member
    exact List.mem_cons_of_mem _ (List.mem_cons_of_mem _
      (List.mem_append_left _ (read_of_mem_found member)))

/-- A path through `save_pack` leaves the counters as it tells. -/
theorem Saves.counts {path front : Trail} (saves : Saves crates store gha path)
    (preparing : ∀ done ∈ front, Preparing done.action) :
    Saved crates store (front ++ path) ((front ++ path).foldl packs (0, 0)) := by
  have before : front.foldl packs (0, 0) = (0, 0) :=
    foldl_packs front (fun done member => (preparing done member).1) _
  have silent : ∀ done : Done Act Answer, ¬ Telling done.action →
      ¬ Refuses crates done ∧ ¬ Acknowledges crates done :=
    fun done other => ⟨fun is => other is.telling, fun is => other is.telling⟩
  have whole := saves.packing preparing
  rw [List.foldl_append, before]
  cases saves with
  | clean =>
    refine .nothing ?_ ?_ <;> rw [whole, List.forall_mem_singleton]
    · exact (silent ⟨.load .pack_dirty, false⟩ not_false).1
    · exact (silent ⟨.load .pack_dirty, false⟩ not_false).2
  | @empty keys contents length none =>
    have quiet : ∀ done ∈ (⟨.load .pack_dirty, true⟩ :: ⟨.iter .packed, keys⟩ ::
        readings store (sort keys) contents : Trail), ¬ Telling done.action ∧
          Uncounted done.action := by
      rw [List.forall_mem_cons, List.forall_mem_cons]
      refine ⟨⟨not_false, nofun⟩, ⟨not_false, nofun⟩, fun done member => ?_⟩
      obtain ⟨key, content, -, rfl⟩ := mem_readings member
      exact ⟨not_false, nofun⟩
    rw [foldl_packs _ fun done member => (quiet done member).2]
    refine .nothing ?_ ?_ <;> rw [whole] <;> intro done member
    · exact (silent _ (quiet done member).1).1
    · exact (silent _ (quiet done member).1).2
  | @saved keys contents objects stamp puts result body length reads some encoded stored =>
    have gathered := (packedObjects_saved whole length stored).trans reads
    have counted : (⟨.load .pack_dirty, true⟩ :: ⟨.iter .packed, keys⟩ ::
        (readings store (sort keys) contents ++
          ⟨.now, stamp⟩ :: (puts ++ records objects body.length result)) : Trail).foldl packs
            (0, 0) =
        (records objects body.length result).foldl packs (0, 0) := by
      rw [List.foldl_cons, List.foldl_cons, List.foldl_append, List.foldl_cons, List.foldl_append,
        foldl_packs (readings _ _ _) fun done member => ?_,
        foldl_packs puts fun done member => (stored.asking done member).uncounted]
      · rfl
      · obtain ⟨key, content, -, rfl⟩ := mem_readings member
        exact nofun
    have told : ∀ kind : Done Act Answer → Prop, (∀ done, kind done → Telling done.action) →
        ((∃ done ∈ Cicache.packing (front ++ ⟨.load .pack_dirty, true⟩ :: ⟨.iter .packed, keys⟩ ::
          (readings store (sort keys) contents ++
            ⟨.now, stamp⟩ :: (puts ++ records objects body.length result))), kind done) ↔
          ∃ done ∈ puts, kind done) := by
      intro kind tells
      rw [whole]
      exact exists_mem_saved kind tells
    have refused := (told (Refuses crates) fun _ is => is.telling).trans stored.refused_iff.symm
    have confirmed := (told (Acknowledges crates) fun _ is => is.telling).trans
      stored.stored_iff.symm
    have none : ∀ {trail : Trail} {kind : Done Act Answer → Prop}, ¬ (∃ done ∈ trail, kind done) →
        ∀ done ∈ trail, ¬ kind done := fun absent done member is => absent ⟨done, member, is⟩
    rw [counted]
    rcases result with err | (_ | _)
    · exact .nothing (none fun is => nomatch refused.mp is) (none fun is => nomatch confirmed.mp is)
    · have counts : Saved crates store _ _ := .declined (gathered.symm ▸ some) (refused.mpr rfl)
        (none fun is => nomatch confirmed.mp is) body.length
      rw [gathered] at counts
      exact counts
    · have counts : Saved crates store _ _ := .confirmed (gathered.symm ▸ some)
        (none fun is => nomatch refused.mp is) (confirmed.mpr rfl) ?_
      · rw [gathered, encoded] at counts
        exact counts
      · rw [gathered, encoded]
        obtain ⟨url, status, member⟩ := stored.sent
        obtain ⟨_, inside, url', status', rfl⟩ :=
          (told (fun done => ∃ url status, done = ⟨.put_blob url body, status⟩)
            (by rintro _ ⟨_, _, rfl⟩; exact trivial)).mpr ⟨_, member, url, status, rfl⟩
        exact ⟨url', status', inside⟩

end Flush

/-! ### The run of a job -/

section Run

variable {crates : Crates} {proxy : Proxy} {service : Service} {built : List Built}
variable {events : List (Event TaskId Choice Arrival)} {flusher : TaskId}
variable {after : Config Act Answer TaskId World Value}

/-- A file that was read has a name, and its bytes fit into memory. -/
theorem read_fits
    (ran : (Job.machine crates proxy).run (Job.idle proxy (Job.fresh proxy service built)) events =
      some after) {id : TaskId} {path : String} {bytes : Bytes}
    (member : ⟨.read path, some bytes⟩ ∈ Job.trail crates proxy service built events id) :
    isName path = true ∧ fits bytes = true := by
  have all := Machine.history_preserves ran
    (fun past (_ : World) => ∀ entry ∈ past, ∀ path bytes, entry.2 = ⟨.read path, some bytes⟩ →
      isName path = true ∧ fits bytes = true) ?_ (fun _ _ _ _ _ _ kept _ => kept)
    (fun _ none => absurd none List.not_mem_nil)
  · rw [List.nil_append] at all
    exact all _ (mem_pathOf.mp member) path bytes rfl
  · intro past id action choice before answer shared kept result entry inside path bytes same
    rcases List.mem_append.mp inside with earlier | now
    · exact kept entry earlier path bytes same
    · rw [List.mem_singleton.mp now] at same
      cases same
      have readable := @readable_of_read id _ _ _ _ _ result
      exact ⟨readable.1, readable.2.1⟩

/-- Only the flush sets the counters of the pack. -/
theorem uncounted_of_ne
    (ran : (Job.machine crates proxy).run (Job.idle proxy (Job.fresh proxy service built)) events =
      some after) (once : ∀ other, .arrive other .flush ∈ events → other = flusher) :
    ∀ entry ∈ (Job.machine crates proxy).history
        (Job.idle proxy (Job.fresh proxy service built)) events,
      entry.1 ≠ flusher → Uncounted entry.2.action := by
  intro entry member different
  obtain ⟨id, done⟩ := entry
  by_cases calling : ∃ number, id = .call number
  · obtain ⟨number, rfl⟩ := calling
    rcases Machine.arrived_or ran (@again_eq_none crates proxy (.call number) (by nofun)) rfl with
      ⟨-, nothing, -⟩ | ⟨front, arrival, back, config, program, shared, parts, -, accepted,
        rest, -, takes⟩
    · have inPath := mem_pathOf.mpr member
      rw [nothing] at inPath
      cases inPath
    · have arrived : .arrive (.call number) arrival ∈ events :=
        parts ▸ List.mem_append_right _ List.mem_cons_self
      obtain ⟨called, isCall, same⟩ := Option.map_eq_some_iff.mp accepted
      cases same
      refine takes.allowed ?_ done (mem_pathOf.mpr member)
      by_cases loads : arrival = .load_index
      · subst loads
        cases isCall
        exact yields_within (load_index_within crates _ (fun _ asking => asking.uncounted)
          fun _ => nofun) _
      · refine (call_requesting isCall loads fun flushes => ?_).mono fun _ => Requesting.uncounted
        exact different (once _ (flushes ▸ arrived))
  · refine Job.history_within ran (fun id action => (¬ ∃ number, id = .call number) →
      Uncounted action) ?_ ?_ ?_ ?_ (id, done) member calling
    · exact fun number _ program _ => .of_all (fun _ other => absurd ⟨number, rfl⟩ other) program
    · exact fun _ host port => (serve_tunnel_passes proxy host port).mono
        fun _ passes _ => passes.1.requesting.uncounted
    · refine (upload_round_draining proxy.store).mono fun action draining _ => ?_
      rintro objects bytes rfl
      exact draining
    · exact fun _ gha key bytes => (upload_within crates (fun _ asking => asking.uncounted)
        (fun _ => nofun) nofun (fun _ _ => nofun) nofun gha key bytes).mono
        fun _ uncounted _ => uncounted

/-- The counters of the pack are what these actions made them. -/
def PackCounted (past : List (TaskId × Done Act Answer)) (world : World) : Prop :=
  (world.stats.packed, world.stats.packed_bytes) =
    past.foldl (fun counts entry => packs counts entry.2) (0, 0)

theorem PackCounted.step {past : List (TaskId × Done Act Answer)} {id : TaskId} {action : Act}
    {choice : Choice} {before shared : World} {answer : Answer action}
    (counted : PackCounted past before)
    (result : World.exec id action choice before = some (answer, shared)) :
    PackCounted (past ++ [(id, ⟨action, answer⟩)]) shared := by
  rw [PackCounted, List.foldl_append, ← counted]
  cases action with
  | record_packed objects bytes =>
    cases result
    rfl
  | record outcome method url bytes millis =>
    cases result
    cases outcome <;> rfl
  | record_upload bytes ok =>
    cases result
    cases ok <;> rfl
  | _ =>
    simp only [World.exec] at result
    (repeat' split at result) <;> cases result <;> rfl

/-- The counters of the pack are what the flush made them. -/
theorem counters_eq
    (ran : (Job.machine crates proxy).run (Job.idle proxy (Job.fresh proxy service built)) events =
      some after) (once : ∀ other, .arrive other .flush ∈ events → other = flusher) :
    (after.shared.stats.packed, after.shared.stats.packed_bytes) =
      (Job.trail crates proxy service built events flusher).foldl packs (0, 0) := by
  have start : PackCounted [] (Job.idle proxy (Job.fresh proxy service built)).shared := rfl
  have counted := Machine.history_preserves ran PackCounted
    (fun _ _ _ _ _ _ _ counted result => counted.step result) ?_ start
  · rw [PackCounted, List.nil_append] at counted
    rw [counted, Job.trail]
    refine foldl_history packs flusher _ (fun entry member different => ?_) _
    exact packs_of_uncounted (uncounted_of_ne ran once entry member different)
  · intro past id arrival before program shared counted result
    rcases Job.accept_cases crates proxy result with ⟨_, _, _, rfl⟩ | ⟨_, _, _, _, _, _, rfl⟩ |
      ⟨_, _, _, _, _, _, _, _, rfl⟩ <;> exact counted

/-! ### The counters of the uploads -/

/-- The action counts an upload as stored. -/
def countsStored : Done Act Answer → Bool
  | ⟨.record_upload _ ok, _⟩ => ok
  | _ => false

theorem exists_of_countsStored {done : Done Act Answer} (stored : countsStored done = true) :
    ∃ size, done.action = .record_upload size true := by
  unfold countsStored at stored
  split at stored
  · subst stored
    exact ⟨_, rfl⟩
  · cases stored

/-- An upload counts itself as stored when the service has confirmed it. -/
theorem upload_acknowledged {gha : GhaCache} {key : String} {bytes : Bytes} {path : Trail}
    {rest : Task Value}
    (takes : (yields (Store.upload crates gha key bytes) fun _ => .done).Takes path rest)
    (counts : ∃ done ∈ path, countsStored done = true) :
    ∃ done ∈ path, Acknowledges crates done := by
  obtain ⟨done, member, stored⟩ := counts
  obtain ⟨size, counting⟩ := exists_of_countsStored stored
  have unasked : ∀ path : Trail, (∀ done ∈ path, Asking done.action) → done ∉ path := by
    intro path asking inside
    have asks := asking done inside
    rw [counting] at asks
    exact asks
  unfold yields Store.upload at takes
  rw [bind_assoc] at takes
  rcases takes_bind takes with ⟨residue, begins, -⟩ | ⟨front, result, back, rfl, ends, goesOn⟩
  · exact absurd member (unasked path (begins.allowed (put_asking crates gha key bytes)))
  · have puts := put_finishes crates gha ends
    refine exists_mem_append.mpr (Or.inl (puts.stored_iff.mp ?_))
    have behind := (List.mem_append.mp member).resolve_left (unasked front puts.asking)
    refine @Takes.allowed _ _ _ (fun action => ∀ size, action = .record_upload size true →
      result = .ok true) _ _ _ goesOn ?_ done behind size counting
    rcases result with err | (_ | _)
    · exact ⟨nofun, fun _ => ⟨nofun, fun _ => trivial⟩⟩
    · refine Within.bind (.act nofun fun added => ?_) fun _ => trivial
      split <;> exact ⟨nofun, fun _ => by first | trivial | exact ⟨nofun, fun _ => trivial⟩⟩
    · refine Within.bind (.act (fun _ _ => rfl) fun _ => .act nofun fun added => ?_) fun _ =>
        trivial
      split <;> exact ⟨nofun, fun _ => by first | trivial | exact ⟨nofun, fun _ => trivial⟩⟩

/-- The action is not the count of an upload. -/
def Uploadless (action : Act) : Prop := ∀ size ok, action ≠ .record_upload size ok

theorem Filing.uploadless {action : Act} (filing : Filing action) : Uploadless action := by
  rintro size ok rfl
  exact filing

theorem Requesting.uploadless {action : Act} (requesting : Requesting action) :
    Uploadless action := by
  rintro size ok rfl
  rcases requesting with passes | retrieves | queues | ⟨_, _, _, _, same⟩
  · exact passes
  · exact retrieves
  · exact queues
  · cases same

theorem call_uploadless {arrival : Arrival} {program : Task Value}
    (called : Job.call crates proxy arrival = some program) : program.Within Uploadless := by
  by_cases loads : arrival = .load_index
  · subst loads
    cases called
    exact yields_within (load_index_within crates _
      (fun _ asking => asking.calling.filing.uploadless) fun _ => nofun) _
  · by_cases flushes : arrival = .flush
    · subst flushes
      cases called
      exact (yields_within (flush_filing crates _) _).mono fun _ => Filing.uploadless
    · exact (call_requesting called loads flushes).mono fun _ => Requesting.uploadless

/-- Without a confirmed upload no entry is counted. -/
theorem entries_stored_eq_zero
    (ran : (Job.machine crates proxy).run (Job.idle proxy (Job.fresh proxy service built)) events =
      some after)
    (unconfirmed : ∀ number, ∀ done ∈ Job.trail crates proxy service built events (.upload number),
      ¬ Acknowledges crates done) : after.shared.stats.entries_stored = 0 := by
  have counts := Machine.count_history ran (fun world => world.stats.entries_stored) countsStored
    (fun id action choice before answer shared result => ?_)
    fun id arrival before program shared result => ?_
  · rw [counts, List.countP_eq_zero.mpr fun entry member stored => ?_]
    · rfl
    · have uploads := Job.history_within ran
        (fun id action => (¬ ∃ number, id = .upload number) → Uploadless action)
        (fun _ _ program called => (call_uploadless called).mono fun _ uploadless _ => uploadless)
        (fun _ host port => (serve_tunnel_passes proxy host port).mono
          fun _ passes _ => passes.1.requesting.uploadless)
        ((upload_round_filing _).mono fun _ filing _ => filing.uploadless)
        (fun number _ _ _ => .of_all (fun _ other => absurd ⟨number, rfl⟩ other) _) entry member
      obtain ⟨id, done⟩ := entry
      have isUpload : ∃ number, id = .upload number := by
        by_contra other
        obtain ⟨size, counting⟩ := exists_of_countsStored stored
        exact uploads other size true counting
      obtain ⟨number, rfl⟩ := isUpload
      rcases Machine.arrived_or ran (@again_eq_none crates proxy (.upload number) (by nofun)) rfl
        with ⟨-, nothing, -⟩ | ⟨front, arrival, back, config, program, shared, -, -, accepted,
          rest, -, takes⟩
      · have inPath := mem_pathOf.mpr member
        rw [nothing] at inPath
        cases inPath
      · rcases Job.accept_cases crates proxy accepted with ⟨_, ⟨⟩, _⟩ | ⟨_, _, _, ⟨⟩, _⟩ |
          ⟨_, key, bytes, gha, ⟨⟩, -, -, rfl, -⟩
        obtain ⟨acknowledging, inside, acknowledges⟩ :=
          upload_acknowledged takes ⟨done, mem_pathOf.mpr member, stored⟩
        exact unconfirmed number acknowledging inside acknowledges
  · cases action with
    | record_upload bytes ok =>
      cases result
      cases ok <;> rfl
    | record outcome method url bytes millis =>
      cases result
      cases outcome <;> rfl
    | _ =>
      simp only [Job.machine, World.exec] at result
      (repeat' split at result) <;> cases result <;> rfl
  · rcases Job.accept_cases crates proxy result with ⟨_, _, _, rfl⟩ | ⟨_, _, _, _, _, _, rfl⟩ |
      ⟨_, _, _, _, _, _, _, _, rfl⟩ <;> rfl

/-! ### When the summary tells the truth -/

variable {number : Nat} {value : Value}

/-- A flush that has ended has prepared, and saved the pack if there is a service. -/
theorem flush_saved
    (ran : (Job.machine crates proxy).run (Job.idle proxy (Job.fresh proxy service built)) events =
      some after) (flushed : .arrive (.call number) .flush ∈ events)
    (ended : after.tasks (.call number) = some (.finish value)) :
    ∃ front path, Job.trail crates proxy service built events (.call number) = front ++ path ∧
      (∀ done ∈ front, Preparing done.action) ∧
      (path = [] ∨ ∃ gha, Saves crates proxy.store gha path) := by
  rcases Machine.arrived_or ran (@again_eq_none crates proxy (.call number) (by nofun)) rfl with
    ⟨absent, -⟩ | ⟨before, arrival, later, config, program, shared, parts, -, accepted, rest,
      task, takes⟩
  · rw [absent] at ended
    cases ended
  · obtain rfl := Machine.arrive_unique ran flushed
      (parts ▸ List.mem_append_right _ List.mem_cons_self)
    rw [task, Option.some_inj] at ended
    subst ended
    cases accepted
    obtain ⟨whole, _, nothing, same, flushes, last⟩ := (finishes_bind ..).mp takes
    obtain ⟨rfl, -⟩ := (finishes_finish ..).mp last
    obtain ⟨front, path, rfl, preparing, saves⟩ := flush_finishes flushes
    refine ⟨front, path, same.trans (List.append_nil _), preparing, ?_⟩
    cases client : proxy.store.gha with
    | none =>
      unfold Store.save_pack at saves
      rw [client] at saves
      exact Or.inl ((finishes_finish ..).mp saves).1
    | some gha => exact Or.inr ⟨gha, save_pack_finishes crates proxy.store client saves⟩

/-- The objects on disk were read by the flush, and their pack is what it sent. -/
theorem flush_packed
    (ran : (Job.machine crates proxy).run (Job.idle proxy (Job.fresh proxy service built)) events =
      some after) (flushed : .arrive (.call number) .flush ∈ events)
    (ended : after.tasks (.call number) = some (.finish value)) :
    (∀ object ∈ packedObjects (Job.trail crates proxy service built events (.call number)),
      ⟨.read (proxy.store.path object.1), some object.2⟩ ∈
        packing (Job.trail crates proxy service built events (.call number))) ∧
    ∀ url body status,
      ⟨.put_blob url body, status⟩ ∈
        packing (Job.trail crates proxy service built events (.call number)) →
      body = Pack.encode (packedObjects
        (Job.trail crates proxy service built events (.call number)))
        proxy.store.config.pack_limit := by
  obtain ⟨front, path, whole, preparing, saves⟩ := flush_saved ran flushed ended
  rw [whole]
  rcases saves with rfl | ⟨gha, saves⟩
  · have nothing : packing (front ++ []) = [] := packing_of_preparing preparing []
    rw [packedObjects, nothing]
    exact ⟨fun _ none => absurd none List.not_mem_nil, fun _ _ _ none =>
      absurd none List.not_mem_nil⟩
  · rw [saves.packing preparing]
    exact ⟨fun object member => saves.read preparing member,
      fun url body status member => saves.sent preparing member⟩

/-- The counters of the pack behind the flush. -/
theorem flush_counts
    (ran : (Job.machine crates proxy).run (Job.idle proxy (Job.fresh proxy service built)) events =
      some after) (flushed : .arrive (.call number) .flush ∈ events)
    (once : ∀ other, .arrive other .flush ∈ events → other = .call number)
    (ended : after.tasks (.call number) = some (.finish value)) :
    Saved crates proxy.store (Job.trail crates proxy service built events (.call number))
      (after.shared.stats.packed, after.shared.stats.packed_bytes) := by
  rw [counters_eq ran once]
  obtain ⟨front, path, whole, preparing, saves⟩ := flush_saved ran flushed ended
  rw [whole]
  rcases saves with rfl | ⟨gha, saves⟩
  · have nothing : packing (front ++ []) = [] := packing_of_preparing preparing []
    rw [foldl_packs _ fun done member => (preparing done (List.append_nil front ▸ member)).1]
    refine .nothing ?_ ?_ <;> rw [nothing] <;> exact fun _ none => absurd none List.not_mem_nil
  · exact saves.counts preparing

/-- The lengths of the objects fit the fields of their records. -/
theorem packedObjects_small
    (ran : (Job.machine crates proxy).run (Job.idle proxy (Job.fresh proxy service built)) events =
      some after) (flushed : .arrive (.call number) .flush ∈ events)
    (ended : after.tasks (.call number) = some (.finish value)) :
    ∀ object ∈ packedObjects (Job.trail crates proxy service built events (.call number)),
      (utf8 object.1).length < 2 ^ 32 ∧ object.2.length < 2 ^ 64 := by
  intro object member
  have reads := (flush_packed ran flushed ended).1 object member
  obtain ⟨named, held⟩ := read_fits ran ((List.dropWhile_sublist _).subset reads)
  have buffer : object.2.length < 2 ^ 63 := of_decide_eq_true held
  exact ⟨(proxy.store.length_key named).trans (by decide), by omega⟩

theorem warned_of_unstored {serde : Command.Serde} (lawful : serde.Lawful) {stats : Summary}
    (entries : stats.entries_stored = 0) (packed : stats.packed = 0) (stored : 0 < stats.stored) :
    (serde.summary_from_str (serde.summary_to_vec stats)).bind stop_warning =
      some (unreached stats.stored) := by
  rw [lawful.summary, Option.bind_some]
  exact if_pos ⟨stored, entries, packed⟩

/-- The summary is truthful exactly when the service did not decline the pack, and everything fit
into a pack that it confirmed. -/
theorem summary_truthful_iff {serde : Command.Serde} (lawful : serde.Lawful)
    (ran : (Job.machine crates proxy).run (Job.idle proxy (Job.fresh proxy service built)) events =
      some after) (flushed : .arrive (.call number) .flush ∈ events)
    (once : ∀ other, .arrive other .flush ∈ events → other = .call number)
    (ended : after.tasks (.call number) = some (.finish value)) :
    Truthful crates serde (Job.trail crates proxy service built events) (.call number)
        after.shared.stats ↔
      (∀ done ∈ packing (Job.trail crates proxy service built events (.call number)),
        ¬ Refuses crates done) ∧
      ((∃ done ∈ packing (Job.trail crates proxy service built events (.call number)),
          Acknowledges crates done) →
        Pack.MAGIC.length + ((packedObjects
          (Job.trail crates proxy service built events
            (.call number))).flatMap Pack.record).length ≤
            proxy.store.config.pack_limit) := by
  have saved := flush_counts ran flushed once ended
  have sent := (flush_packed ran flushed ended).2
  have small := packedObjects_small ran flushed ended
  have entries := entries_stored_eq_zero ran
  generalize Job.trail crates proxy service built events = trail at *
  generalize after.shared.stats = stats at *
  generalize same : (stats.packed, stats.packed_bytes) = counts at saved
  cases saved with
  | nothing unrefused unconfirmed =>
    obtain ⟨packed, bytes⟩ := Prod.mk.inj same
    refine iff_of_true ⟨?_, fun _ => ⟨packed, bytes⟩, ?_⟩ ⟨unrefused, ?_⟩
    · rintro body ⟨-, done, member, acknowledges⟩
      exact absurd acknowledges (unconfirmed done member)
    · intro unloaded _
      exact ⟨entries unloaded, packed, warned_of_unstored lawful (entries unloaded) packed⟩
    · rintro ⟨done, member, acknowledges⟩
      exact absurd acknowledges (unconfirmed done member)
  | declined some refused unconfirmed size =>
    obtain ⟨packed, -⟩ := Prod.mk.inj same
    refine iff_of_false (fun truthful => some ?_) fun holds => ?_
    · refine List.eq_nil_of_length_eq_zero (packed.symm.trans (truthful.unconfirmed ?_).1)
      rintro body ⟨-, done, member, acknowledges⟩
      exact unconfirmed done member acknowledges
    · obtain ⟨done, member, refuses⟩ := refused
      exact holds.1 done member refuses
  | confirmed some unrefused confirmed stored =>
    obtain ⟨packed, bytes⟩ := Prod.mk.inj same
    have isPack := Pack.isPack_encode proxy.store.config.pack_limit small
    refine Iff.trans ?_ (and_iff_right unrefused).symm
    rw [imp_iff_right confirmed, ← Pack.length_keep_eq_iff some]
    constructor
    · intro truthful
      obtain ⟨⟨objects, alsoPack, count⟩, -⟩ := truthful.confirmed _ ⟨stored, confirmed⟩
      rw [isPack.unique alsoPack, ← count, packed]
    · intro whole
      refine ⟨?_, fun absent => absurd ⟨stored, confirmed⟩ (absent _),
        fun _ absent => absurd ⟨stored, confirmed⟩ (absent _)⟩
      rintro body ⟨⟨url, status, member⟩, -⟩
      rw [sent url body status member]
      exact ⟨⟨_, isPack, packed.trans whole.symm⟩, bytes⟩

end Run

/-! ### A job that stores one object -/

/-- A small object is put, and a flush reads it back. -/
def packedRuns : List (Event TaskId Choice Arrival) :=
  [.arrive (.call 0) (.put "t-0" [0x78]), .run (.call 0) .quiet, .run (.call 0) (.opened true),
    .run (.call 0) (.written none), .run (.call 0) .quiet, .run (.call 0) .quiet,
    .arrive (.call 1) .flush, .run (.call 1) .quiet, .run (.call 1) .quiet,
    .run .uploader .quiet, .run .uploader .quiet, .run (.call 1) .quiet, .run (.call 1) .quiet,
    .run (.call 1) .quiet, .run (.call 1) (.listing ["t-0"]),
    .run (.call 1) (.contents (some [0x78])), .run (.call 1) (.clock 5), .run (.call 1) .quiet]

/-- The service answers that there is an entry of the key. -/
def declinedRuns : List (Event TaskId Choice Arrival) :=
  packedRuns ++ [.run (.call 1) (.replied (some ⟨.CONFLICT, ""⟩) .nothing), .run (.call 1) .quiet]

theorem once_packedRuns {back : List (Event TaskId Choice Arrival)}
    (none : ∀ id, .arrive id .flush ∉ back) :
    ∀ other, .arrive other .flush ∈ packedRuns ++ back → other = .call 1 := by
  intro other member
  rcases List.mem_append.mp member with inside | behind
  · simpa [packedRuns] using inside
  · exact absurd behind (none other)

set_option maxRecDepth 8000 in
/-- The summary counts a pack that the service has not stored. -/
theorem declined_counted :
    ¬ ∀ (crates : Crates) (serde : Command.Serde) (proxy : Proxy) (service : Service)
      (built : List Built) (events : List (Event TaskId Choice Arrival))
      (after : Config Act Answer TaskId World Value) (number : Nat) (value : Value), serde.Lawful →
      (Job.machine crates proxy).run (Job.idle proxy (Job.fresh proxy service built)) events =
        some after →
      .arrive (.call number) .flush ∈ events →
      (∀ other, .arrive other .flush ∈ events → other = .call number) →
      after.tasks (.call number) = some (.finish value) →
      Truthful crates serde (Job.trail crates proxy service built events) (.call number)
        after.shared.stats := by
  intro always
  have truthful := always .unknown Command.exampleSerde exampleProxy .empty []
    declinedRuns _ 1 .done
    Command.exampleSerde_lawful rfl (by simp [declinedRuns, packedRuns])
    (once_packedRuns (by simp)) rfl
  have counted := (truthful.unconfirmed ?_).1
  · cases counted
  · rintro body ⟨-, done, member, acknowledges⟩
    have path : packing (Job.trail .unknown exampleProxy .empty [] declinedRuns (.call 1)) =
        [⟨.load .pack_dirty, true⟩, ⟨.iter .packed, ["t-0"]⟩,
          ⟨.read "/tmp/cicache/objects/t-0", some [0x78]⟩, ⟨.now, (5 : Nat)⟩,
          ⟨.load .exhausted, false⟩, ⟨.post _ _ (.CreateCacheEntry _ _), some ⟨.CONFLICT, ""⟩⟩,
          ⟨.record_packed 1 20, ()⟩] := rfl
    rw [path] at member
    simp only [List.mem_cons, List.not_mem_nil, or_false] at member
    rcases member with rfl | rfl | rfl | rfl | rfl | rfl | rfl <;> exact acknowledges

/-- The service reserves, gets and confirms the pack. -/
def confirmedRuns : List (Event TaskId Choice Arrival) :=
  packedRuns ++ [.run (.call 1)
    (.replied (some ⟨.OK, createdText "https://blob.example/0"⟩) .nothing),
    .run (.call 1) (.uploaded (some .OK) true),
    .run (.call 1) (.replied (some ⟨.OK, finalizedText⟩) .nothing), .run (.call 1) .quiet]

set_option maxRecDepth 8000 in
/-- The summary of that job is truthful. -/
theorem confirmed_counted : ∃ after : Config Act Answer TaskId World Value,
    after.shared.stats.packed = 1 ∧
    Truthful (.ofSamples acceptingSamples) Command.exampleSerde
      (Job.trail (.ofSamples acceptingSamples) exampleProxy .empty [] confirmedRuns) (.call 1)
        after.shared.stats := by
  have ran : (Job.machine (.ofSamples acceptingSamples) exampleProxy).run
    (Job.idle exampleProxy (Job.fresh exampleProxy .empty [])) confirmedRuns = some _ := rfl
  refine ⟨_, ?_, (summary_truthful_iff Command.exampleSerde_lawful ran
    (by simp [confirmedRuns, packedRuns]) (once_packedRuns (by simp)) rfl).mpr ⟨?_, fun _ => ?_⟩⟩
  · rfl
  · have path : packing (Job.trail (.ofSamples acceptingSamples) exampleProxy .empty []
        confirmedRuns (.call 1)) =
        [⟨.load .pack_dirty, true⟩, ⟨.iter .packed, ["t-0"]⟩,
          ⟨.read "/tmp/cicache/objects/t-0", some [0x78]⟩, ⟨.now, (5 : Nat)⟩,
          ⟨.load .exhausted, false⟩,
            ⟨.post _ _ (.CreateCacheEntry _ _), some ⟨.OK, createdText "https://blob.example/0"⟩⟩,
          ⟨.put_blob _ _, some .OK⟩,
          ⟨.post _ _ (.FinalizeCacheEntryUpload _ _ _), some ⟨.OK, finalizedText⟩⟩,
          ⟨.record_packed 1 20, ()⟩] := rfl
    rw [path]
    simp only [List.forall_mem_cons]
    refine ⟨id, id, id, id, Bool.false_ne_true, ?_, id, ?_, id, fun _ none => nomatch none⟩
    · exact (by decide : ¬ (true = false ∨ "https://blob.example/0" = ""))
    · exact (by decide : ¬ (true = false))
  · decide +kernel

end Cicache
