/-
This file follows the bytes of responses through a job. Five places hold them on their way: the
queue and the uploads, the files, the packs and the entries of the service, and each names them by a
key. All of them tell the same story: the bytes under the key of a URL are those of an entry that
was built for a URL with this key, or a beginning of them. Every program of the store keeps it so,
as long as the service is honest.
-/

import Cicache.Honest
import Cicache.Policy
import Cicache.Scopes

namespace Cicache

open Text Interleaving

/-! ### What belongs under a key -/

/-- The entry that a call of `Entry::new` built. -/
def Built.entry (crates : Crates) (built : Built) : Entry crates :=
  Entry.new crates built.url built.status built.headers built.body built.stored_at

/-- The calls of `Entry::new` in a run, and the prefix that its jobs file under. -/
structure Ledger (crates : Crates) where
  builds : Built → Prop
  key_prefix : String

namespace Ledger

section Keys

variable {crates : Crates} (ledger : Ledger crates)

/-- The key of a URL. -/
def key (url : Url) : String := ledger.key_prefix ++ "-" ++ Policy.digest crates url

/-- The key of some URL. -/
def IsKey (key : String) : Prop := ∃ url, key = ledger.key url

/-- The bytes are those of an entry that was built for a URL with this key. -/
def Original (key : String) (bytes : Bytes) : Prop :=
  ∃ built url, ledger.builds built ∧ built.url = url.as_str ∧ key = ledger.key url ∧
    (built.entry crates).encode = some bytes

/-- The bytes are a beginning of such. -/
def Piece (key : String) (bytes : Bytes) : Prop := ∃ whole, ledger.Original key whole ∧
    bytes <+: whole

/-- What every name of a kind starts with. -/
def front (kind : String) : String := ledger.key_prefix ++ "-" ++ kind ++ "-"

/-- What may be filed under a name: under the key of a URL what belongs there, and under the name of
a pack only pieces of what belongs under their keys. -/
def Genuine (name : String) (data : Bytes) : Prop :=
  (ledger.IsKey name → ledger.Original name data) ∧
    (startsWith name (ledger.front "pack") = true → fits data = true → ∀ mode objects,
      Pack.decode mode data = .ok objects → ∀ object ∈ objects, ledger.Piece object.1 object.2)

variable {ledger} {key : String} {bytes : Bytes}

theorem Original.isKey (original : ledger.Original key bytes) : ledger.IsKey key := by
  obtain ⟨_, url, _, _, same, _⟩ := original
  exact ⟨url, same⟩

theorem Original.piece (original : ledger.Original key bytes) : ledger.Piece key bytes :=
  ⟨bytes, original, List.prefix_rfl⟩

theorem Piece.isKey (piece : ledger.Piece key bytes) : ledger.IsKey key := by
  obtain ⟨whole, original, _⟩ := piece
  exact original.isKey

theorem Piece.shorter {whole : Bytes} (piece : ledger.Piece key whole) (begins : bytes <+: whole) :
    ledger.Piece key bytes := by
  obtain ⟨all, original, starts⟩ := piece
  exact ⟨all, original, begins.trans starts⟩

/-- The name of a scope's entry starts as its kind does. -/
theorem startsWith_scoped {name scope kind : String}
    (starts : startsWith name ( scoped_prefix ledger.key_prefix scope kind) = true) :
    startsWith name (ledger.front kind) = true := by
  obtain ⟨rest, rfl⟩ := (startsWith_iff ..).mp starts
  refine (startsWith_iff ..).mpr ⟨scope ++ "-" ++ rest, ?_⟩
  simp only [front, scoped_prefix, String.append_assoc]

theorem startsWith_scoped_key (scope kind : String) (stamp : Nat) (run : String) :
    startsWith (GhaCache.scoped_key ledger.key_prefix scope kind stamp run) (ledger.front kind) =
      true := by
  refine @startsWith_scoped _ _ _ scope _
    ((startsWith_iff ..).mpr ⟨Nat.repr stamp ++ "-" ++ run, ?_⟩)
  simp only [GhaCache.scoped_key, String.append_assoc]

/-- What is behind the prefix of a key is digits, and no kind starts with one. -/
theorem IsKey.not_startsWith (isKey : ledger.IsKey key) {kind : String} (isKind : kind ∈ KINDS) :
    startsWith key (ledger.front kind) = false := by
  obtain ⟨url, rfl⟩ := isKey
  refine decide_eq_false fun starts => ?_
  simp only [Ledger.key, front, String.toList_append, List.append_assoc,
    List.prefix_append_right_inj] at starts
  have digits : ∀ {char}, char ∈ (Policy.digest crates url).toList → isHexDigit char = true :=
    isHexDigit_of_mem_hex
  simp only [KINDS, List.mem_cons, List.not_mem_nil, or_false] at isKind
  rcases isKind with rfl | rfl
  · exact absurd (digits (starts.subset List.mem_cons_self)) (by decide)
  · exact absurd (digits (starts.subset List.mem_cons_self)) (by decide)

theorem not_isKey_scoped_key {kind scope run : String} {stamp : Nat} (isKind : kind ∈ KINDS) :
    ¬ ledger.IsKey (GhaCache.scoped_key ledger.key_prefix scope kind stamp run) := by
  intro isKey
  have starts := @startsWith_scoped_key _ ledger scope kind stamp run
  rw [isKey.not_startsWith isKind] at starts
  cases starts

/-- What belongs under a key may be filed there. -/
theorem Original.genuine (original : ledger.Original key bytes) : ledger.Genuine key bytes := by
  refine ⟨fun _ => original, fun starts => ?_⟩
  rw [original.isKey.not_startsWith (by decide)] at starts
  cases starts

/-- A manifest may hold anything. -/
theorem genuine_index (scope : String) (stamp : Nat) (run : String) (data : Bytes) :
    ledger.Genuine (GhaCache.scoped_key ledger.key_prefix scope "index" stamp run) data := by
  refine ⟨fun isKey => absurd isKey (not_isKey_scoped_key (by decide)), fun starts => ?_⟩
  have parts := of_decide_eq_true starts
  simp only [GhaCache.scoped_key, scoped_prefix, front, String.toList_append, List.append_assoc,
    List.prefix_append_right_inj] at parts
  exact absurd (List.cons_prefix_cons.mp parts).1 (by decide)

/-- A pack of pieces may be filed as a pack. -/
theorem genuine_pack (scope : String) (stamp : Nat) (run : String) {objects : List Pack.Object}
    (limit : Nat) (pieces : ∀ object ∈ objects, ledger.Piece object.1 object.2 ∧
      (utf8 object.1).length < 2 ^ 32) :
    ledger.Genuine (GhaCache.scoped_key ledger.key_prefix scope "pack" stamp run)
      (Pack.encode objects limit) := by
  refine ⟨fun isKey => absurd isKey (not_isKey_scoped_key (by decide)),
    fun _ small mode others read => ?_⟩
  rw [Pack.decode_encode mode objects limit (fun object member => (pieces object member).2)
    (of_decide_eq_true small)] at read
  cases read
  exact fun object member => (pieces object ((Pack.keep_sublist _ _ _).subset member)).1

/-- Keys hold no separator, when their prefix holds none. -/
theorem IsKey.not_mem (isKey : ledger.IsKey key) (flat : '/' ∉ ledger.key_prefix.toList) :
    '/' ∉ key.toList := by
  obtain ⟨url, rfl⟩ := isKey
  intro member
  rcases @Policy.mem_key crates ⟨0, 0, 0, false, false, [], ledger.key_prefix⟩ url '/' member with
    inPrefix | hyphen | digit
  · exact flat inPrefix
  · cases hyphen
  · cases digit

/-- Keys have files of their own. -/
theorem IsKey.path_injective (isKey : ledger.IsKey key) {other : String}
    (isOther : ledger.IsKey other) (flat : '/' ∉ ledger.key_prefix.toList) {store : Store}
    (same : store.path key = store.path other) : key = other :=
  Path.join_injective (isKey.not_mem flat) (isOther.not_mem flat) same

end Keys

end Ledger

/-! ### What a job holds -/

section Held

variable {crates : Crates} (ledger : Ledger crates) (store : Store)

/-- What belongs under their keys is in the files of keys, in the queue and in the uploads, and the
keys of the pack are keys. -/
structure Held (world : World) : Prop where
  content : ∀ key, ledger.IsKey key → ∀ bytes, (world.files (store.path key)).content = some bytes →
    ledger.Piece key bytes
  writing : ∀ key, ledger.IsKey key → ∀ whole ∈ (world.files (store.path key)).writing,
    ledger.Piece key whole
  queue : ∀ item ∈ world.queue, ledger.Original item.1 item.2
  spawned : ∀ number item, (number, item) ∈ world.spawned → ledger.Original item.1 item.2
  packed : ∀ key ∈ world.sets .packed, ledger.IsKey key

/-- What an action must be given to keep that. -/
def Owes : Act → Prop
  | .write_begin path bytes | .write_end path bytes =>
      ∃ key, path = store.path key ∧ ledger.Piece key bytes
  | .insert .packed key => ledger.IsKey key
  | .send item | .spawn item => ledger.Original item.1 item.2
  | _ => True

variable {ledger store} {id : TaskId} {action : Act} {choice : Choice} {before after : World}
variable {answer : Answer action}

/-- Writing a piece under its key leaves pieces in the files. -/
theorem Held.setFile (held : Held ledger store before) (flat : '/' ∉ ledger.key_prefix.toList)
    {key : String} (isKey : ledger.IsKey key) {file : File}
    (content : ∀ bytes, file.content = some bytes → ledger.Piece key bytes)
    (writing : ∀ whole ∈ file.writing, ledger.Piece key whole) :
    Held ledger store (before.setFile (store.path key) file) := by
  have files : ∀ other, ledger.IsKey other →
      (∀ bytes,
        ((before.setFile (store.path key) file).files (store.path other)).content = some bytes →
        ledger.Piece other bytes) ∧
      ∀ whole ∈ ((before.setFile (store.path key) file).files (store.path other)).writing,
        ledger.Piece other whole := by
    intro other isOther
    by_cases same : store.path other = store.path key
    · obtain rfl := isOther.path_injective isKey flat same
      rw [World.setFile_self]
      exact ⟨content, writing⟩
    · rw [World.setFile_of_ne same]
      exact ⟨held.content other isOther, held.writing other isOther⟩
  exact ⟨fun other isOther => (files other isOther).1, fun other isOther => (files other isOther).2,
    held.queue, held.spawned, held.packed⟩

/-- Every action that has what it must be given keeps that. -/
theorem Held.step (held : Held ledger store before) (flat : '/' ∉ ledger.key_prefix.toList)
    (owed : Owes ledger store action)
    (result : World.exec id action choice before = some (answer, after)) :
    Held ledger store after := by
  cases action with
  | insert set key =>
    cases result
    refine ⟨held.content, held.writing, held.queue, held.spawned, fun other member => ?_⟩
    cases set with
    | packed =>
      rw [World.addKey_self, Finset.mem_insert] at member
      rcases member with rfl | earlier
      · exact owed
      · exact held.packed other earlier
    | _ => exact held.packed other member
  | write_begin path bytes =>
    obtain ⟨key, rfl, piece⟩ := owed
    cases choice with
    | opened ok =>
      cases ok with
      | true =>
        simp only [World.exec] at result
        split at result
        · cases result
          refine held.setFile flat piece.isKey (held.content key piece.isKey) fun whole member => ?_
          rcases List.mem_cons.mp member with rfl | earlier
          · exact piece
          · exact held.writing key piece.isKey whole earlier
        · cases result
      | false =>
        cases result
        exact held
    | _ => cases result
  | write_end path bytes =>
    obtain ⟨key, rfl, piece⟩ := owed
    have writing : ∀ whole ∈ (before.files (store.path key)).writing.erase bytes,
        ledger.Piece key whole := fun whole member =>
      held.writing key piece.isKey whole (List.mem_of_mem_erase member)
    cases choice with
    | written left =>
      cases left with
      | none =>
        cases result
        refine held.setFile flat piece.isKey (fun found same => ?_) writing
        cases same
        exact piece
      | some left =>
        simp only [World.exec] at result
        split at result
        · rename_i begins
          cases result
          refine held.setFile flat piece.isKey (fun found same => ?_) writing
          cases same
          exact piece.shorter begins
        · cases result
    | _ => cases result
  | send item =>
    cases result
    refine ⟨held.content, held.writing, fun other member => ?_, held.spawned, held.packed⟩
    rcases List.mem_append.mp member with earlier | now
    · exact held.queue other earlier
    · cases List.mem_singleton.mp now
      exact owed
  | recv =>
    simp only [World.exec] at result
    split at result
    · rename_i item rest waiting
      cases result
      refine ⟨held.content, held.writing, fun other member => ?_, held.spawned, held.packed⟩
      exact held.queue other (waiting ▸ List.mem_cons_of_mem item member)
    · split at result
      · cases result
        exact held
      · cases result
  | spawn item =>
    cases result
    refine ⟨held.content, held.writing, held.queue, fun number other member => ?_, held.packed⟩
    rcases List.mem_append.mp member with earlier | now
    · exact held.spawned number other earlier
    · cases List.mem_singleton.mp now
      exact owed
  | _ =>
    simp only [World.exec] at result
    (repeat' split at result) <;> cases result <;>
      exact ⟨held.content, held.writing, held.queue, held.spawned, held.packed⟩

/-- What is read from the file of a key is a piece. -/
theorem Held.readable {world : World} (held : Held ledger store world) {key : String}
    (isKey : ledger.IsKey key) {bytes : Bytes}
    (readable : world.Readable (store.path key) (some bytes)) : ledger.Piece key bytes := by
  obtain ⟨-, -, there | ⟨whole, writing, begins⟩⟩ := readable
  · exact held.content key isKey bytes there
  · exact (held.writing key isKey whole writing).shorter begins

end Held

/-! ### The programs of the store -/

section Programs

variable {crates : Crates} (ledger : Ledger crates) (store : Store)

/-- The environment is honest, and every call of `Entry::new` is recorded. -/
def Attributed (_ : TaskId) (world : World) (action : Act) (choice : Choice) : Prop :=
  honest crates world action choice = true ∧
    match action, choice with
    | .build_entry url status headers body, .clock time =>
        ledger.builds ⟨url, status, headers, body, time⟩
    | _, _ => True

/-- The service and the job hold what belongs under their keys. -/
def Faithful (world : World) : Prop :=
  Filed ledger.Genuine .empty world.service ∧ Held ledger store world

/-- A program that keeps the service and the job sound. -/
abbrev Upholds {Result : Type} (id : TaskId) (post : Result → Prop) (program : Task Result)
    (world : World) : Prop :=
  Keeps (Attributed ledger) (Faithful ledger store) id (fun value _ => post value) program world

/-- The actions that need not be given anything. -/
def Inert : Act → Prop
  | .write_begin _ _ | .write_end _ _ | .send _ | .spawn _ | .post _ _ _ | .put_blob _ _ => False
  | .insert set _ => set ≠ .packed
  | _ => True

variable {ledger store} {id : TaskId}

theorem Inert.owes {action : Act} (inert : Inert action) : Owes ledger store action := by
  cases action with
  | insert set key =>
    cases set with
    | packed => exact absurd rfl inert
    | _ => trivial
  | _ => trivial

theorem Inert.files {action : Act} (inert : Inert action) (service : Service) :
    Files ledger.Genuine .empty service action := by
  cases action with
  | post url token request => exact inert.elim
  | put_blob url data => exact inert.elim
  | _ => trivial

theorem Asking.owes {action : Act} (asking : Asking action) : Owes ledger store action := by
  cases action with
  | _ => trivial

theorem Fetches.asking {action : Act} (fetches : Fetches action) : Asking action := by
  cases action with
  | _ => trivial

theorem honest_of_attributed {world : World} {action : Act} {choice : Choice}
    (attributed : Attributed ledger id world action choice) :
    honest crates world action choice = true :=
  attributed.1

variable (flat : '/' ∉ ledger.key_prefix.toList)

include flat

theorem Held.acts {action : Act} {before after : World} {answer : Answer action}
    (held : Held ledger store before) (owed : Owes ledger store action)
    (acted : World.Acts (Attributed ledger) id action before answer after) :
    Held ledger store after := by
  obtain ⟨choice, _, result⟩ := acted
  exact held.step flat owed result

theorem Faithful.acts {before after : World} (action : Act) {answer : Answer action}
    (faithful : Faithful ledger store before) (owed : Owes ledger store action)
    (files : Files ledger.Genuine .empty before.service action)
    (acted : World.Acts (Attributed ledger) id action before answer after) :
    Faithful ledger store after :=
  ⟨faithful.1.acts honest_of_attributed files acted, faithful.2.acts flat owed acted⟩

theorem Faithful.inert {before after : World} (action : Act) {answer : Answer action}
    (faithful : Faithful ledger store before) (inert : Inert action)
    (acted : World.Acts (Attributed ledger) id action before answer after) :
    Faithful ledger store after :=
  faithful.acts flat action inert.owes (inert.files _) acted

theorem upholds_of_within {Result : Type} {program : Task Result} (within : program.Within Inert)
    (world : World) : Upholds ledger store id (fun _ => True) program world :=
  Keeps.of_within within (fun action _ _ _ inert faithful acted =>
      faithful.inert flat action inert acted)
    fun _ _ _ => trivial

/-- A program of one action. -/
theorem upholds_act (action : Act) (inert : Inert action) (world : World) :
    Upholds ledger store id (fun _ => True) (act action) world :=
  upholds_of_within flat (show (.perform action .finish : Task (Answer action)).Within Inert from
    ⟨inert, fun _ => trivial⟩) world

/-- Writing a piece under its key. -/
theorem write_upholds {key : String} {bytes : Bytes} (piece : ledger.Piece key bytes)
    (world : World) :
    Upholds ledger store id (fun _ => True) (write (store.path key) bytes) world := by
  have within : (write (store.path key) bytes).Within fun action =>
      action = .write_begin (store.path key) bytes ∨ action = .write_end (store.path key) bytes :=
    write_within (Or.inl rfl) (Or.inr rfl)
  refine Keeps.of_within within ?_ fun _ _ _ => trivial
  rintro action now answer after (rfl | rfl) faithful acted
  · exact faithful.acts flat (.write_begin _ _) ⟨key, rfl, piece⟩ trivial acted
  · exact faithful.acts flat (.write_end _ _) ⟨key, rfl, piece⟩ trivial acted

/-- A fetch returns what may be filed under a name that it asked for. -/
theorem fetch_upholds (gha : GhaCache) (key : String) (restore_keys : List String) (world : World) :
    Upholds ledger store id (fun value => ∀ bytes, value = .ok (some bytes) → fits bytes = true ∧
        ∃ name, ledger.Genuine name bytes ∧ Service.Asked key restore_keys name)
      (gha.fetch crates key restore_keys) world := by
  have keeps : ∀ {action now answer after}, Fetches action → Faithful ledger store now →
      World.Acts (Attributed ledger) id action now answer after → Faithful ledger store after :=
    fun fetches faithful acted =>
      faithful.acts flat _ fetches.asking.owes (fetches.files _ _ _) acted
  refine (fetch_finds honest_of_attributed keeps gha).weaken fun value now _ told bytes same => ?_
  obtain ⟨small, name, between, faithful, _, _, found⟩ := told bytes same
  obtain ⟨member, asked⟩ := Service.find_eq_some found
  exact ⟨small, name, faithful.1.fits _ member, asked⟩

/-- Putting what may be filed. -/
theorem put_upholds (gha : GhaCache) {key : String} {data : Bytes}
    (genuine : ledger.Genuine key data)
    (world : World) : Upholds ledger store id (fun _ => True) (gha.put crates key data) world := by
  refine (put_filed honest_of_attributed ?_ gha genuine).weaken fun _ _ _ _ => trivial
  exact fun asking held acted => held.acts flat asking.owes acted

/-- Unpacking pieces. -/
theorem unpack_upholds {objects : List Pack.Object}
    (pieces : ∀ object ∈ objects, ledger.Piece object.1 object.2) {world : World}
    (faithful : Faithful ledger store world) :
    Upholds ledger store id (fun _ => True) (store.unpack objects) world := by
  induction objects generalizing world with
  | nil => exact fun _ _ _ => trivial
  | cons object rest inductionHypothesis =>
    have piece := pieces object List.mem_cons_self
    have others := fun other member => pieces other (List.mem_cons_of_mem _ member)
    unfold Store.unpack
    refine (write_upholds flat piece world).bind Grows.isRely faithful fun written now kept _ => ?_
    cases written with
    | false => exact inductionHypothesis others kept
    | true =>
      refine Keeps.act fun later added after held _ acted => ?_
      have next := held.acts flat (.insert .packed _) piece.isKey trivial acted
      exact ⟨next, fun _ => inductionHypothesis others next⟩

variable (names : store.config.key_prefix = ledger.key_prefix)

include names

theorem load_pack_upholds {world : World} (faithful : Faithful ledger store world) :
    Upholds ledger store id (fun _ => True) (store.load_pack crates) world := by
  unfold Store.load_pack
  split
  · exact fun _ _ _ => trivial
  · rename_i gha _
    refine (fetch_upholds flat gha _ _ world).bind Grows.isRely faithful
      fun loaded now kept told => ?_
    rcases loaded with err | (_ | raw)
    · exact fun _ _ _ => trivial
    · exact fun _ _ _ => trivial
    · obtain ⟨small, name, genuine, asked⟩ := told raw rfl
      dsimp only
      unfold Store.unpack_raw
      split
      · rename_i objects read
        have starts : startsWith name (ledger.front "pack") = true :=
          Ledger.startsWith_scoped (names ▸ asked)
        exact (unpack_upholds flat (genuine.2 starts small _ _ read) kept).bind Grows.isRely kept
          fun _ _ _ _ _ _ _ => trivial
      · exact fun _ _ _ => trivial
      · exact fun _ _ _ => trivial

omit names in
/-- What is gathered under keys are pieces. -/
theorem gather_upholds {keys : List String} (areKeys : ∀ key ∈ keys, ledger.IsKey key)
    {world : World}
    (faithful : Faithful ledger store world) :
    Upholds ledger store id (fun objects => ∀ object ∈ objects,
        ledger.Piece object.1 object.2 ∧ (utf8 object.1).length < 2 ^ 32)
      (store.gather keys) world := by
  induction keys generalizing world with
  | nil => exact fun _ _ _ _ member => absurd member List.not_mem_nil
  | cons key rest inductionHypothesis =>
    have others := fun other member => areKeys other (List.mem_cons_of_mem _ member)
    unfold Store.gather
    refine Keeps.act fun now body after kept _ acted => ?_
    have next := kept.inert flat (.read _) trivial acted
    refine ⟨next, fun _ => ?_⟩
    cases body with
    | none => exact inductionHypothesis others next
    | some body =>
      have readable := readable_of_read acted.choose_spec.2
      have piece := kept.2.readable (areKeys key List.mem_cons_self) readable
      refine (inductionHypothesis others next).bind Grows.isRely next fun objects _ _ pieces => ?_
      rintro _ _ _ object member
      rcases List.mem_cons.mp member with rfl | later
      · exact ⟨piece, (store.length_key readable.1).trans (by decide)⟩
      · exact pieces object later

omit names in
/-- Putting an entry of a kind. -/
theorem put_scoped_upholds (gha : GhaCache) {run key_prefix scope kind : String} {body : Bytes}
    (genuine : ∀ stamp, ledger.Genuine (GhaCache.scoped_key key_prefix scope kind stamp run) body)
    (world : World) :
    Upholds ledger store id (fun _ => True) (gha.put_scoped crates run key_prefix scope kind body)
      world := by
  refine Keeps.act fun now stamp after kept _ acted => ?_
  exact ⟨kept.inert flat .now trivial acted, fun _ => put_upholds flat gha (genuine stamp) after⟩

theorem save_pack_upholds (world : World) :
    Upholds ledger store id (fun _ => True) (store.save_pack crates) world := by
  unfold Store.save_pack
  split
  · exact fun _ _ _ => trivial
  · rename_i gha _
    refine Keeps.act fun now dirty after kept _ acted => ?_
    have next := kept.inert flat (.load .pack_dirty) trivial acted
    refine ⟨next, fun _ => ?_⟩
    split
    · refine Keeps.act fun now keys after kept _ acted => ?_
      have next := kept.inert flat (.iter .packed) trivial acted
      have areKeys : ∀ key ∈ sort keys, ledger.IsKey key := by
        intro key member
        refine kept.2.packed key (listed_of_iter acted.choose_spec.2 ▸ ?_)
        exact List.mem_toFinset.mpr ((List.perm_insertionSort _ _).mem_iff.mp member)
      refine ⟨next, fun _ => ?_⟩
      refine (gather_upholds flat areKeys next).bind Grows.isRely next
        fun objects now kept pieces => ?_
      dsimp only
      split
      · exact fun _ _ _ => trivial
      · refine (put_scoped_upholds flat gha (fun stamp => ?_) now).bind Grows.isRely kept
          fun stored later held _ => ?_
        · rw [names]
          exact Ledger.genuine_pack _ _ _ _ pieces
        · cases stored with
          | ok _ => exact upholds_act flat (.record_packed _ _) trivial later
          | error _ => exact fun _ _ _ => trivial
    · exact fun _ _ _ => trivial

theorem save_index_upholds (world : World) :
    Upholds ledger store id (fun _ => True) (store.save_index crates) world := by
  unfold Store.save_index
  split
  · exact fun _ _ _ => trivial
  · rename_i gha _
    refine Keeps.act fun now dirty after kept _ acted => ?_
    refine ⟨kept.inert flat (.load .index_dirty) trivial acted, fun _ => ?_⟩
    split
    · refine Keeps.act fun now keys after kept _ acted => ?_
      have next := kept.inert flat (.iter .index) trivial acted
      refine ⟨next, fun _ => ?_⟩
      refine (put_scoped_upholds flat gha (fun stamp => ?_) after).bind Grows.isRely next
        fun stored _ _ _ => ?_
      · rw [names]
        exact Ledger.genuine_index _ _ _ _
      · cases stored <;> exact fun _ _ _ => trivial
    · exact fun _ _ _ => trivial

theorem flush_upholds (world : World) :
    Upholds ledger store id (fun _ => True) (store.flush crates) world := by
  unfold Store.flush
  refine Keeps.act fun now _ after kept _ acted => ?_
  refine ⟨kept.inert flat .take_sender trivial acted, fun _ => ?_⟩
  refine Keeps.act fun now handle after kept _ acted => ?_
  have next := kept.inert flat .take_uploader trivial acted
  refine ⟨next, fun _ => ?_⟩
  have awaits : (Store.await_uploader handle).Within Inert := by
    unfold Store.await_uploader
    split
    · exact ⟨trivial, fun _ => trivial⟩
    · exact trivial
  refine (upholds_of_within flat awaits after).bind Grows.isRely next fun _ now kept _ => ?_
  refine (save_index_upholds flat names now).bind Grows.isRely kept fun _ now _ _ => ?_
  exact save_pack_upholds flat names now

omit names

theorem load_index_upholds {world : World} (faithful : Faithful ledger store world) :
    Upholds ledger store id (fun _ => True) (store.load_index crates) world := by
  have learns : ∀ keys, (Store.learn keys).Within Inert := by
    intro keys
    induction keys with
    | nil => exact trivial
    | cons key rest inductionHypothesis => exact .act (by rintro ⟨⟩) fun _ => inductionHypothesis
  unfold Store.load_index
  split
  · exact fun _ _ _ => trivial
  · rename_i gha _
    refine (fetch_upholds flat gha _ _ world).bind Grows.isRely faithful fun loaded now _ _ => ?_
    rcases loaded with err | (_ | raw)
    · exact fun _ _ _ => trivial
    · exact fun _ _ _ => trivial
    · exact upholds_of_within flat (learns _) now

/-- Storing what belongs under a key. -/
theorem store_put_upholds {key : String} {bytes : Bytes} (original : ledger.Original key bytes)
    (world : World) : Upholds ledger store id (fun _ => True) (store.put key bytes) world := by
  unfold Store.put
  refine Keeps.act fun now fresh after kept _ acted => ?_
  have next := kept.inert flat (.insert .queued _) (by rintro ⟨⟩) acted
  refine ⟨next, fun _ => ?_⟩
  split
  · refine (write_upholds flat original.piece after).bind Grows.isRely next fun _ now kept _ => ?_
    split
    · refine Keeps.act fun now added after kept _ acted => ?_
      refine ⟨kept.acts flat (.insert .packed _) original.isKey trivial acted, fun _ => ?_⟩
      split
      · exact upholds_act flat (.store .pack_dirty) trivial after
      · exact fun _ _ _ => trivial
    · refine Keeps.act fun now cloned after kept _ acted => ?_
      refine ⟨kept.inert flat .clone_sender trivial acted, fun _ => ?_⟩
      split
      · refine Keeps.act fun now _ after kept _ acted => ?_
        exact ⟨kept.acts flat (.send (key, bytes)) original trivial acted, fun _ _ _ _ => trivial⟩
      · exact fun _ _ _ => trivial
  · exact fun _ _ _ => trivial

theorem upload_round_upholds (world : World) :
    Upholds ledger store id (fun _ => True) store.upload_round world := by
  unfold Store.upload_round
  refine Keeps.act fun now item after kept _ acted => ?_
  refine ⟨kept.inert flat .recv trivial acted, fun _ => ?_⟩
  cases item with
  | none =>
    exact (upholds_act flat .join_uploads trivial after).bind Grows.isRely
      (kept.inert flat .recv trivial acted) fun _ _ _ _ _ _ _ => trivial
  | some item =>
    have original := kept.2.queue item (mem_queue_of_recv acted.choose_spec.2)
    dsimp only
    split
    · exact fun _ _ _ => trivial
    · refine Keeps.act fun now _ after kept _ acted => ?_
      refine ⟨kept.inert flat .acquire trivial acted, fun _ => ?_⟩
      refine Keeps.act fun now _ after kept _ acted => ?_
      exact ⟨kept.acts flat (.spawn item) original trivial acted, fun _ _ _ _ => trivial⟩

theorem upload_upholds (gha : GhaCache) {key : String} {bytes : Bytes}
    (original : ledger.Original key bytes) {world : World}
    (faithful : Faithful ledger store world) :
    Upholds ledger store id (fun _ => True) (Store.upload crates gha key bytes) world := by
  have lists : (do
      if ← act (.insert .index key) then
        act (.store .index_dirty)
        act .drop_permit
      else act .drop_permit : Task Unit).Within Inert := by
    refine .act (by rintro ⟨⟩) fun added => ?_
    split
    · exact .act trivial fun _ => ⟨trivial, fun _ => trivial⟩
    · exact ⟨trivial, fun _ => trivial⟩
  unfold Store.upload
  refine (put_upholds flat gha original.genuine world).bind Grows.isRely faithful
    fun stored now _ _ => upholds_of_within flat ?_ now
  rcases stored with err | (_ | _)
  · exact .act trivial fun _ => ⟨trivial, fun _ => trivial⟩
  · exact lists
  · exact .act trivial fun _ => lists

/-- Looking up a key returns a piece of what belongs under it. -/
theorem get_upholds {key : String} (isKey : ledger.IsKey key) (world : World) :
    Upholds ledger store id (fun found => ∀ bytes, found = some bytes → ledger.Piece key bytes)
      (store.get crates key) world := by
  unfold Store.get
  refine Keeps.act fun now held after kept _ acted => ?_
  refine ⟨kept.inert flat (.read _) trivial acted, fun _ => ?_⟩
  cases held with
  | some bytes =>
    have piece := kept.2.readable isKey (readable_of_read acted.choose_spec.2)
    rintro _ _ _ _ ⟨⟩
    exact piece
  | none =>
    dsimp only
    split
    · rintro _ _ _ _ ⟨⟩
    · rename_i gha _
      refine Keeps.act fun now listed after kept _ acted => ?_
      refine ⟨kept.inert flat (.contains .index key) trivial acted, fun _ => ?_⟩
      split
      · refine Keeps.act fun now missed after kept _ acted => ?_
        have next := kept.inert flat (.contains .remote_misses key) trivial acted
        refine ⟨next, fun _ => ?_⟩
        split
        · rintro _ _ _ _ ⟨⟩
        · have misses : ∀ world, Upholds ledger store id
              (fun found => ∀ bytes, found = some bytes → ledger.Piece key bytes)
              (do let _ ← act (.insert .remote_misses key); return none : Task (Option Bytes))
              world := by
            intro world
            refine Keeps.act fun now _ after kept _ acted => ?_
            refine ⟨kept.inert flat (.insert .remote_misses key) (by rintro ⟨⟩) acted, fun _ => ?_⟩
            rintro _ _ _ _ ⟨⟩
          refine (fetch_upholds flat gha key [] after).bind Grows.isRely next
            fun fetched now kept told => ?_
          rcases fetched with err | (_ | bytes)
          · exact misses now
          · exact misses now
          · obtain ⟨-, name, genuine, rfl⟩ := told bytes rfl
            have piece := (genuine.1 isKey).piece
            refine (write_upholds flat piece now).bind Grows.isRely kept fun _ _ _ _ => ?_
            rintro _ _ _ _ ⟨⟩
            exact piece
      · rintro _ _ _ _ ⟨⟩

end Programs

end Cicache
