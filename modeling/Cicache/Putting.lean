/-
This file lists the paths through `gha.put` and through `save_pack`, with what each of them ends
with. An object is stored when the service confirmed its finalization; it is declined when the
service was not asked, or when one of its answers says so.
-/

import Cicache.Honest
import Cicache.Index
import Cicache.Outcomes

namespace Cicache

open Text Interleaving Program

/-! ### A call to the service -/

section Calls

variable (crates : Crates) (gha : GhaCache)

/-- What a call performs that is answered so. -/
def calls (method : String) (request : Request) (reply : Option Reply) : Trail :=
  ⟨.post (gha.base ++ SERVICE ++ "/" ++ method) gha.token request, reply⟩ ::
    if GhaCache.limited reply = true then [⟨.store .exhausted, ()⟩] else []

theorem rpc_finishes {Response : Type} {method : String} {request : Request}
    {from_str : String → Option Response} {path : Trail} {value : Except String Response}
    (ends : (gha.rpc crates method request from_str).Finishes path value) :
    ∃ reply, path = calls gha method request reply ∧
      value = GhaCache.received crates method from_str reply := by
  rw [GhaCache.rpc_eq] at ends
  obtain ⟨reply, rest, rfl, later⟩ := (finishes_act ..).mp ends
  refine ⟨reply, ?_⟩
  rw [calls]
  split at later
  · rename_i limited
    obtain ⟨_, nothing, rfl, done⟩ := (finishes_act ..).mp later
    obtain ⟨rfl, rfl⟩ := (finishes_finish ..).mp done
    rw [if_pos limited]
    exact ⟨rfl, rfl⟩
  · rename_i free
    obtain ⟨rfl, rfl⟩ := (finishes_finish ..).mp later
    rw [if_neg free]
    exact ⟨rfl, rfl⟩

/-! ### Storing an object -/

/-- What `put` performs when it is answered a reservation and when it asks for one. -/
def creates (key : String) (reply : Option Reply) : Trail :=
  ⟨.load .exhausted, false⟩ ::
    calls gha "CreateCacheEntry" (.CreateCacheEntry key gha.version) reply

def finalizes (key : String) (data : Bytes) (reply : Option Reply) : Trail :=
  calls gha "FinalizeCacheEntryUpload"
    (.FinalizeCacheEntryUpload key gha.version (Nat.repr data.length)) reply

/-- The paths through `put`, and what it returns on each. -/
inductive Puts (key : String) (data : Bytes) : Trail → Except String Bool → Prop where
  | exhausted : Puts key data [⟨.load .exhausted, true⟩] (.ok false)
  | created {reply result} (made : GhaCache.creating crates reply = .error result) :
      Puts key data (creates gha key reply) result
  | transferred {reply signed status err} (made : GhaCache.creating crates reply = .ok signed)
      (failed : GhaCache.transferring crates status = some err) :
      Puts key data (creates gha key reply ++ [⟨.put_blob signed data, status⟩]) (.error err)
  | finalized {reply signed status answer} (made : GhaCache.creating crates reply = .ok signed)
      (arrived : GhaCache.transferring crates status = none) :
      Puts key data (creates gha key reply ++ ⟨.put_blob signed data, status⟩ ::
        finalizes gha key data answer) (GhaCache.finalizing crates answer)

theorem put_finishes {key : String} {data : Bytes} {path : Trail} {result : Except String Bool}
    (ends : (gha.put crates key data).Finishes path result) :
    Puts crates gha key data path result := by
  unfold GhaCache.put at ends
  obtain ⟨exhausted, rest, rfl, later⟩ := (finishes_act ..).mp ends
  cases exhausted with
  | true =>
    obtain ⟨rfl, rfl⟩ := (finishes_finish ..).mp later
    exact .exhausted
  | false =>
    rw [if_neg Bool.false_ne_true] at later
    obtain ⟨front, created, back, rfl, asks, later⟩ := (finishes_bind ..).mp later
    obtain ⟨reply, rfl, rfl⟩ := rpc_finishes crates gha asks
    cases received : GhaCache.received crates "CreateCacheEntry" crates.createResponse reply with
    | error err =>
      simp only [received] at later
      have made : ∀ value, (finish value : Task (Except String Bool)).Finishes back result →
          GhaCache.creating crates reply = .error value →
          Puts crates gha key data (⟨.load .exhausted, false⟩ ::
            (calls gha "CreateCacheEntry" (.CreateCacheEntry key gha.version) reply ++ back))
            result := by
        intro value done made
        obtain ⟨rfl, rfl⟩ := (finishes_finish ..).mp done
        rw [List.append_nil]
        exact .created made
      split at later
      · rename_i exists'
        exact made _ later (by rw [GhaCache.creating, received]; exact if_pos exists')
      · rename_i other
        exact made _ later (by rw [GhaCache.creating, received]; exact if_neg other)
    | ok create =>
      simp only [received] at later
      split at later
      · rename_i declined
        obtain ⟨rfl, rfl⟩ := (finishes_finish ..).mp later
        rw [List.append_nil]
        exact .created (by rw [GhaCache.creating, received]; exact if_pos declined)
      · rename_i granted
        have made : GhaCache.creating crates reply = .ok create.signed_upload_url := by
          rw [GhaCache.creating, received]
          exact if_neg granted
        obtain ⟨status, rest, rfl, sent⟩ := (finishes_act ..).mp later
        cases status with
        | none =>
          obtain ⟨rfl, rfl⟩ := (finishes_finish ..).mp sent
          exact .transferred made rfl
        | some status =>
          dsimp only at sent
          split at sent
          · rename_i failed
            obtain ⟨rfl, rfl⟩ := (finishes_finish ..).mp sent
            exact .transferred made (if_pos failed)
          · rename_i arrived
            obtain ⟨front, finalized, back, rfl, asks, last⟩ := (finishes_bind ..).mp sent
            obtain ⟨answer, rfl, rfl⟩ := rpc_finishes crates gha asks
            have whole : result = GhaCache.finalizing crates answer ∧ back = [] := by
              unfold GhaCache.finalizing
              split at last
              · rename_i err same
                obtain ⟨rfl, rfl⟩ := (finishes_finish ..).mp last
                rw [same]
                exact ⟨rfl, rfl⟩
              · rename_i response same
                obtain ⟨rfl, rfl⟩ := (finishes_finish ..).mp last
                rw [same]
                exact ⟨rfl, rfl⟩
            obtain ⟨rfl, rfl⟩ := whole
            rw [List.append_nil]
            exact .finalized made (if_neg arrived)

/-! ### What the service said -/

/-- The service confirmed a finalization. -/
def Acknowledges : Done Act Answer → Prop
  | ⟨.post _ _ request, reply⟩ => Finalizes crates request reply
  | _ => False

/-- The service was not asked, since it has limited the rate, or it declined a reservation, one of
an entry that exists for instance, or a finalization. -/
def Refuses : Done Act Answer → Prop
  | ⟨.load .exhausted, limited⟩ => limited = true
  | ⟨.post _ _ request, reply⟩ => Declines crates request reply
  | _ => False

variable {crates gha} {key : String} {data : Bytes} {path : Trail} {result : Except String Bool}

theorem refuses_post {url token : String} {request : Request} {reply : Option Reply} :
    Refuses crates ⟨.post url token request, reply⟩ ↔ Declines crates request reply := Iff.rfl

theorem not_refuses_load : ¬ Refuses crates ⟨.load .exhausted, false⟩ := Bool.false_ne_true

theorem exists_mem_calls {kind : Done Act Answer → Prop} {method : String} {request : Request}
    {reply : Option Reply} (idle : ¬ kind ⟨.store .exhausted, ()⟩) :
    (∃ done ∈ calls gha method request reply, kind done) ↔
      kind ⟨.post (gha.base ++ SERVICE ++ "/" ++ method) gha.token request, reply⟩ := by
  rw [calls, List.exists_mem_cons_iff]
  refine or_iff_left ?_
  rintro ⟨done, member, is⟩
  split at member
  · rw [List.mem_singleton.mp member] at is
    exact idle is
  · cases member

theorem exists_mem_creates {kind : Done Act Answer → Prop} {reply : Option Reply}
    (idle : ¬ kind ⟨.store .exhausted, ()⟩) :
    (∃ done ∈ creates gha key reply, kind done) ↔ kind ⟨.load .exhausted, false⟩ ∨
      kind ⟨.post (gha.base ++ SERVICE ++ "/" ++ "CreateCacheEntry") gha.token
        (.CreateCacheEntry key gha.version), reply⟩ := by
  rw [creates, List.exists_mem_cons_iff, exists_mem_calls idle]

theorem exists_mem_append {Element : Type} {front back : List Element} {kind : Element → Prop} :
    (∃ element ∈ front ++ back, kind element) ↔
      (∃ element ∈ front, kind element) ∨ ∃ element ∈ back, kind element := by
  simp only [List.mem_append, or_and_right, exists_or]

/-- `put` returns that the object was stored when the service has confirmed it. -/
theorem Puts.stored_iff (puts : Puts crates gha key data path result) :
    result = .ok true ↔ ∃ done ∈ path, Acknowledges crates done := by
  cases puts with
  | exhausted => simp [Acknowledges]
  | @created reply _ made =>
    rw [exists_mem_creates not_false]
    refine iff_of_false (fun same => creating_ne_stored crates reply (same ▸ made)) ?_
    rintro (acknowledges | acknowledges) <;> exact acknowledges
  | transferred made failed =>
    rw [exists_mem_append, exists_mem_creates not_false]
    simp [Acknowledges, Finalizes]
  | finalized made arrived =>
    rw [exists_mem_append, exists_mem_creates not_false, List.exists_mem_cons_iff, finalizes,
      exists_mem_calls not_false]
    simp [Acknowledges, Finalizes]

/-- It returns that the object was not stored when the service was not asked or declined. -/
theorem Puts.refused_iff (puts : Puts crates gha key data path result) :
    result = .ok false ↔ ∃ done ∈ path, Refuses crates done := by
  cases puts with
  | exhausted => exact iff_of_true rfl ⟨_, List.mem_singleton_self _, rfl⟩
  | @created reply _ made =>
    rw [exists_mem_creates not_false, or_iff_right not_refuses_load, refuses_post,
      declines_create_iff, made, Except.error.injEq]
  | transferred made failed =>
    rw [exists_mem_append, exists_mem_creates not_false, or_iff_right not_refuses_load,
      refuses_post,
      declines_create_iff, made]
    simp [Refuses]
  | finalized made arrived =>
    rw [exists_mem_append, exists_mem_creates not_false, or_iff_right not_refuses_load,
      refuses_post,
      declines_create_iff, made, List.exists_mem_cons_iff, finalizes, exists_mem_calls not_false,
      refuses_post, declines_finalize_iff]
    simp [Refuses]

/-- The bytes that were sent for a stored object are the object's. -/
theorem Puts.sent (puts : Puts crates gha key data path (.ok true)) :
    ∃ signed status, ⟨.put_blob signed data, status⟩ ∈ path := by
  generalize same : Except.ok true = result at puts
  cases puts with
  | exhausted => cases same
  | @created reply _ made => exact absurd (same ▸ made) (creating_ne_stored crates reply)
  | transferred made failed => cases same
  | finalized made arrived =>
    exact ⟨_, _, List.mem_append_right _ List.mem_cons_self⟩

/-- No other bytes are sent. -/
theorem Puts.data_of_sent (puts : Puts crates gha key data path result) {signed : String}
    {contents : Bytes} {status : Option StatusCode}
    (member : ⟨.put_blob signed contents, status⟩ ∈ path) : contents = data := by
  have others : ∀ method request reply,
      (⟨.put_blob signed contents, status⟩ : Done Act Answer) ∉ calls gha method request reply := by
    intro method request reply
    rw [calls]
    split <;> simp
  cases puts with
  | exhausted => simp at member
  | created made => simp [creates, others] at member
  | transferred made failed =>
    simp only [creates, List.mem_append, List.mem_cons, others] at member
    simp only [Done.mk.injEq, reduceCtorEq, false_and, false_or, List.not_mem_nil,
      or_false] at member
    exact (Act.put_blob.inj member.1).2
  | finalized made arrived =>
    simp only [creates, finalizes, List.mem_append, List.mem_cons, others] at member
    simp only [Done.mk.injEq, reduceCtorEq, false_and, false_or, or_false] at member
    exact (Act.put_blob.inj member.1).2

end Calls

/-! ### Saving the pack -/

section Pack

variable (crates : Crates) (store : Store)

/-- Reading the files of these keys, with what they hold. -/
def readings (keys : List String) (contents : List (Option Bytes)) : Trail :=
  keys.zipWith (fun key content => ⟨.read (store.path key), content⟩) contents

/-- The objects that were read. -/
def found (keys : List String) (contents : List (Option Bytes)) : List Pack.Object :=
  (keys.zip contents).filterMap fun read => read.2.map fun body => (read.1, body)

theorem gather_finishes {keys : List String} {path : Trail} {objects : List Pack.Object}
    (ends : (store.gather keys).Finishes path objects) :
    ∃ contents, contents.length = keys.length ∧ path = readings store keys contents ∧
      objects = found keys contents := by
  induction keys generalizing path objects with
  | nil =>
    obtain ⟨rfl, rfl⟩ := (finishes_finish ..).mp ends
    exact ⟨[], rfl, rfl, rfl⟩
  | cons key rest inductionHypothesis =>
    unfold Store.gather at ends
    obtain ⟨content, later, rfl, goesOn⟩ := (finishes_act ..).mp ends
    cases content with
    | none =>
      obtain ⟨contents, length, rfl, rfl⟩ := inductionHypothesis goesOn
      exact ⟨none :: contents, congrArg (· + 1) length, rfl, rfl⟩
    | some body =>
      obtain ⟨front, others, back, rfl, reads, last⟩ := (finishes_bind ..).mp goesOn
      obtain ⟨contents, length, rfl, rfl⟩ := inductionHypothesis reads
      obtain ⟨rfl, rfl⟩ := (finishes_finish ..).mp last
      rw [List.append_nil]
      exact ⟨some body :: contents, congrArg (· + 1) length, rfl, rfl⟩

/-- What `save_pack` performs with what `put_scoped` returned. -/
def records (objects : List Pack.Object) (size : Nat) : Except String Bool → Trail
  | .ok _ => [⟨.record_packed objects.length size, ()⟩]
  | .error _ => []

/-- The paths through `save_pack` when there is a service. -/
inductive Saves (gha : GhaCache) : Trail → Prop where
  | clean : Saves gha [⟨.load .pack_dirty, false⟩]
  | empty {keys contents} (length : contents.length = (sort keys).length)
      (none : found (sort keys) contents = []) :
      Saves gha (⟨.load .pack_dirty, true⟩ :: ⟨.iter .packed, keys⟩ ::
        readings store (sort keys) contents)
  | saved {keys contents objects stamp puts result body}
      (length : contents.length = (sort keys).length)
      (reads : found (sort keys) contents = objects) (some : objects ≠ [])
      (encoded : Pack.encode objects store.config.pack_limit = body)
      (stored : Puts crates gha
        (GhaCache.scoped_key store.config.key_prefix store.config.scope "pack"
        stamp store.run) body puts result) :
      Saves gha (⟨.load .pack_dirty, true⟩ :: ⟨.iter .packed, keys⟩ ::
        (readings store (sort keys) contents ++
          ⟨.now, stamp⟩ :: (puts ++ records objects body.length result)))

theorem save_pack_finishes {gha : GhaCache} (client : store.gha = some gha) {path : Trail}
    {value : Unit} (ends : (store.save_pack crates).Finishes path value) :
    Saves crates store gha path := by
  unfold Store.save_pack at ends
  rw [client] at ends
  obtain ⟨dirty, rest, rfl, later⟩ := (finishes_act ..).mp ends
  cases dirty with
  | false =>
    obtain ⟨rfl, -⟩ := (finishes_finish ..).mp later
    exact .clean
  | true =>
    rw [if_pos rfl] at later
    obtain ⟨keys, rest, rfl, listed⟩ := (finishes_act ..).mp later
    obtain ⟨front, objects, back, rfl, gathers, rest⟩ := (finishes_bind ..).mp listed
    obtain ⟨contents, length, rfl, reads⟩ := gather_finishes store gathers
    split at rest
    · rename_i none
      obtain ⟨rfl, -⟩ := (finishes_finish ..).mp rest
      rw [List.append_nil]
      exact .empty length (reads ▸ none)
    · rename_i nonempty
      obtain ⟨putScoped, result, back, rfl, stores, last⟩ := (finishes_bind ..).mp rest
      obtain ⟨stamp, puts, rfl, putting⟩ := (finishes_act ..).mp stores
      have recorded : back = records objects
          (Pack.encode objects store.config.pack_limit).length result := by
        cases result with
        | error err => exact ((finishes_finish ..).mp last).1
        | ok stored =>
          obtain ⟨_, nothing, rfl, done⟩ := (finishes_perform ..).mp last
          obtain ⟨rfl, -⟩ := (finishes_finish ..).mp done
          rfl
      rw [recorded]
      exact .saved length reads.symm nonempty rfl (put_finishes crates gha putting)

end Pack

end Cicache
