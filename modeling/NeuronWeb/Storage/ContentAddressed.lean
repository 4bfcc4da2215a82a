/-
  Storage/ContentAddressed: is what is stored under a CID what the CID says?

  Own writes compute the CID from the bytes, and a pushed block is compared with the CID it
  comes under.  The bytes of a peer are written and returned as they come, so the invariant
  holds along a run exactly when every answer that is kept or returned hashes to the CID
  that was asked for.
-/
import NeuronWeb.Storage.SmokeStore
import NeuronWeb.Sample

set_option autoImplicit false

namespace NeuronWeb

variable {F : Type}

namespace SmokeStore

variable {P : Primitives F} {s s' : SmokeStore} {cid : Cid} {data : Bytes}

/-! ## What is held -/

/-- Every block held locally hashes to its CID. -/
structure Addressed (P : Primitives F) (s : SmokeStore) : Prop where
  block : ∀ cid data, s.blocks.get? cid = some data → computeCID P data = cid
  opfs : ∀ cid data, s.readFromOPFS cid = some data → computeCID P data = cid

/-- `s'` holds no block that `s` does not hold. -/
structure Within (s' s : SmokeStore) : Prop where
  block : ∀ cid data, s'.blocks.get? cid = some data → s.blocks.get? cid = some data
  opfs : ∀ cid data, s'.readFromOPFS cid = some data → s.readFromOPFS cid = some data

theorem Within.refl (s : SmokeStore) : Within s s := ⟨fun _ _ h => h, fun _ _ h => h⟩

theorem Within.trans {s'' : SmokeStore} (h' : Within s'' s') (h : Within s' s) : Within s'' s :=
  ⟨fun cid data hget => h.block cid data (h'.block cid data hget),
    fun cid data hget => h.opfs cid data (h'.opfs cid data hget)⟩

theorem Within.addressed (h : Within s' s) (hs : Addressed P s) : Addressed P s' :=
  ⟨fun cid data hget => hs.block cid data (h.block cid data hget),
    fun cid data hget => hs.opfs cid data (h.opfs cid data hget)⟩

theorem Addressed.getBlock (h : Addressed P s) (hget : s.getBlock cid = some data) :
    computeCID P data = cid := by
  unfold SmokeStore.getBlock at hget
  rcases Option.or_eq_some_iff.mp hget with hblock | ⟨-, hopfs⟩
  · exact h.block cid data hblock
  · exact h.opfs cid data hopfs

/-! ## Writing -/

theorem readFromOPFS_writeToOPFS (s : SmokeStore) (cid : Cid) (data : Bytes) (j : Cid) :
    (s.writeToOPFS cid data).readFromOPFS j =
      if cid = j ∧ s.opfsBlocks.isSome = true then some data else s.readFromOPFS j := by
  unfold writeToOPFS readFromOPFS
  cases s.opfsBlocks with
  | none => simp
  | some files => simp [JsMap.get?_set]

@[simp] theorem writeToOPFS_blocks (s : SmokeStore) (cid : Cid) (data : Bytes) :
    (s.writeToOPFS cid data).blocks = s.blocks := rfl

theorem Addressed.writeToOPFS (h : Addressed P s) (hcid : computeCID P data = cid) :
    Addressed P (s.writeToOPFS cid data) where
  block := h.block
  opfs j stored hget := by
    rw [readFromOPFS_writeToOPFS] at hget
    split at hget
    · rename_i hj
      cases hget
      exact hcid.trans hj.1
    · exact h.opfs j stored hget

theorem Addressed.setBlock (h : Addressed P s) (hcid : computeCID P data = cid) :
    Addressed P { s with blocks := s.blocks.set cid data } where
  block j stored hget := by
    rw [JsMap.get?_set] at hget
    split at hget
    · rename_i hj
      cases hget
      exact hcid.trans hj
    · exact h.block j stored hget
  opfs := h.opfs

theorem Addressed.route (h : Addressed P s) (hcid : computeCID P data = cid) :
    Addressed P (s.route cid data) := by
  unfold SmokeStore.route
  split
  · exact h.writeToOPFS hcid
  · exact h.setBlock hcid

/-- The bytes fit in `/blocks`, or there is an OPFS directory for them. -/
def Storable (s : SmokeStore) (data : Bytes) : Prop :=
  data.length < OPFS_WRITE_THRESHOLD ∨ s.opfsBlocks.isSome = true

theorem route_addressed_iff (cid : Cid) (data : Bytes) (h : Addressed P s) :
    Addressed P (s.route cid data) ↔ (s.Storable data → computeCID P data = cid) := by
  constructor
  · intro hroute hroom
    unfold SmokeStore.route at hroute
    split at hroute
    · rename_i hlarge
      have hopfs : s.opfsBlocks.isSome = true :=
        hroom.resolve_left (Nat.not_lt.mpr hlarge)
      refine hroute.opfs cid data ?_
      rw [readFromOPFS_writeToOPFS, if_pos ⟨rfl, hopfs⟩]
    · refine hroute.block cid data ?_
      exact JsMap.get?_set_self s.blocks cid data
  · intro hcid
    by_cases hroom : s.Storable data
    · exact h.route (hcid hroom)
    · unfold Storable at hroom
      rw [not_or] at hroom
      have hnone : s.opfsBlocks = none := by
        cases hopfs : s.opfsBlocks with
        | none => rfl
        | some files => exact absurd (by rw [hopfs]; rfl) hroom.2
      unfold SmokeStore.route
      rw [if_pos (Nat.not_lt.mp hroom.1)]
      refine ⟨h.block, fun j stored hget => h.opfs j stored ?_⟩
      rwa [readFromOPFS_writeToOPFS, hnone, Option.isSome_none, if_neg (by simp)] at hget

theorem Addressed.store (h : Addressed P s) (data : Bytes) : Addressed P (s.store P data).1 :=
  h.setBlock rfl

theorem Addressed.pushReceive (h : Addressed P s) :
    Addressed P ((s.pushReceive P cid data).getD s) := by
  unfold SmokeStore.pushReceive
  split
  · exact h
  · rename_i hcid
    exact h.route (not_not.mp hcid)

theorem Addressed.storeChunks (encrypt : Nat → Bytes → Bytes) (data : Bytes) :
    ∀ {s : SmokeStore} (idx : Nat), Addressed P s →
      Addressed P (SmokeStore.storeChunks P encrypt s idx data).1 := by
  induction hlength : data.length using Nat.strong_induction_on generalizing data with
  | _ n ih =>
    intro s idx h
    unfold SmokeStore.storeChunks
    split
    · exact h
    · rename_i hdata
      have hpos := List.length_pos_of_ne_nil hdata
      refine ih _ ?_ (data.drop STREAM_CHUNK_SIZE) rfl (idx + 1) (h.writeToOPFS rfl)
      rw [List.length_drop, STREAM_CHUNK_SIZE]
      omega

theorem Addressed.saveChunkIndex (h : Addressed P s) (metaCid : Cid) (chunkCids : List Cid) :
    Addressed P (s.saveChunkIndex metaCid chunkCids) :=
  ⟨h.block, h.opfs⟩

theorem Addressed.storeSealed (h : Addressed P s) (encrypt : Nat → Bytes → Bytes)
    (encrypted : Bool) (data : Bytes) (fields : List (String × Json F)) (now : Int) :
    Addressed P (SmokeStore.storeSealed P encrypt encrypted s data fields now).1 := by
  unfold SmokeStore.storeSealed
  simp only
  split
  · exact ((h.storeChunks encrypt data 0).store _).saveChunkIndex _ _
  · exact (h.store _).store _

section

variable (s : SmokeStore)

theorem within_markCached (cid : Cid) (uploaderPub : Option Hex) :
    Within (s.markCached cid uploaderPub) s := ⟨fun _ _ h => h, fun _ _ h => h⟩

theorem within_saveCacheGroup (rootCid : Cid) (subCids : List Cid) :
    Within (s.saveCacheGroup rootCid subCids) s := by
  unfold saveCacheGroup
  split
  · exact .refl s
  · exact ⟨fun _ _ h => h, fun _ _ h => h⟩

theorem within_peerFallbacks (peerFallbacks : List String) :
    Within { s with peerFallbacks } s := ⟨fun _ _ h => h, fun _ _ h => h⟩

theorem within_addPeerFallback (addr : String) : Within (s.addPeerFallback addr) s := by
  unfold addPeerFallback
  split
  · exact .refl s
  · exact within_peerFallbacks s _

theorem addPeerFallback_opfs (addr : String) :
    (s.addPeerFallback addr).opfsBlocks = s.opfsBlocks := by
  unfold addPeerFallback
  split <;> rfl

theorem within_touchPeerFallback (addr : String) : Within (s.touchPeerFallback addr) s := by
  unfold touchPeerFallback
  split
  · exact within_addPeerFallback s addr
  · exact .refl s

theorem touchPeerFallback_opfs (addr : String) :
    (s.touchPeerFallback addr).opfsBlocks = s.opfsBlocks := by
  unfold touchPeerFallback
  split
  · exact addPeerFallback_opfs s addr
  · rfl

/-! ## Deleting -/

theorem readFromOPFS_deleteFromOPFS (cids : List Cid) (j : Cid) :
    (s.deleteFromOPFS cids).readFromOPFS j = if j ∈ cids then none else s.readFromOPFS j := by
  unfold deleteFromOPFS readFromOPFS
  cases s.opfsBlocks with
  | none => simp
  | some files => simp [JsMap.get?_deleteAll]

theorem within_deleteFromOPFS (cids : List Cid) :
    Within (s.deleteFromOPFS cids) s where
  block _ _ h := h
  opfs j data h := by
    rw [readFromOPFS_deleteFromOPFS] at h
    split at h
    · cases h
    · exact h

theorem within_drop (cids : List Cid) : Within (s.drop cids) s where
  block j data h := by
    have hget : (s.blocks.deleteAll cids).get? j = some data := h
    rw [JsMap.get?_deleteAll] at hget
    split at hget
    · cases hget
    · exact hget
  opfs := (within_deleteFromOPFS s cids).opfs

theorem within_indexes (chunkIndex cacheGroups : JsMap Cid (List Cid)) :
    Within { s with chunkIndex, cacheGroups } s :=
  ⟨fun _ _ h => h, fun _ _ h => h⟩

theorem within_deleteBlock (cid : Cid) : Within (s.deleteBlock cid) s := by
  unfold deleteBlock
  simp only
  refine (within_drop _ [cid]).trans ?_
  cases s.chunkIndex.get? cid with
  | some chunkCids =>
    have hchunks : Within { s.deleteFromOPFS chunkCids with
        chunkIndex := s.chunkIndex.delete cid } s :=
      (within_indexes _ _ _).trans (within_deleteFromOPFS s _)
    simp only
    split
    · exact ((within_indexes _ _ _).trans (within_drop _ _)).trans hchunks
    · exact hchunks
  | none =>
    simp only
    split
    · exact (within_indexes _ _ _).trans (within_drop _ _)
    · exact .refl s

end

theorem within_clearCached [JsNumber F] (parse : Bytes → Option (Json F)) (s : SmokeStore) :
    Within (s.clearCached parse) s := by
  have hloop : ∀ (known cids : List Cid) (s : SmokeStore),
      Within (cids.foldl (clearOne known) s) s := by
    intro known cids
    induction cids with
    | nil => exact Within.refl
    | cons cid rest ih =>
      intro s
      refine (ih (clearOne known s cid)).trans ?_
      unfold clearOne
      split
      · exact within_drop s [cid]
      · exact within_deleteBlock s cid
  exact hloop _ _ s

theorem addressed_new (P : Primitives F) (opfs : Bool) : Addressed P (new opfs) where
  block cid data h := by cases h
  opfs cid data h := by cases opfs <;> cases h

end SmokeStore

namespace SmokeSession

variable {P : Primitives F} {s : SmokeSession}

/-! ## One call -/

/-- Every block held locally, and every block returned, hashes to its CID. -/
structure Addressed (P : Primitives F) (s : SmokeSession) : Prop where
  store : s.store.Addressed P
  returned : ∀ r ∈ s.returned, computeCID P r.2 = r.1

section

variable (h : Addressed P s)
include h

theorem Addressed.setStore {store : SmokeStore} (hstore : store.Addressed P) :
    Addressed P { s with store } := ⟨hstore, h.returned⟩

theorem give_addressed_iff {cid : Cid} {data : Bytes} :
    Addressed P (s.give cid data) ↔ computeCID P data = cid := by
  constructor
  · intro hgive
    exact hgive.returned (cid, data) (List.mem_append_right _ (List.mem_singleton_self _))
  · intro hcid
    refine ⟨h.store, fun r hr => ?_⟩
    rcases List.mem_append.mp hr with hold | hnew
    · exact h.returned r hold
    · rw [List.mem_singleton.mp hnew]
      exact hcid

theorem Addressed.ask (cid : Cid) (kind : FetchKind) (peers : List String) :
    Addressed P (s.ask cid kind peers) := by
  unfold SmokeSession.ask
  split
  · exact h
  · exact ⟨h.store, h.returned⟩

theorem Addressed.getBlock {cid : Cid} {data : Bytes}
    (hget : s.store.getBlock cid = some data) : Addressed P (s.give cid data) :=
  (give_addressed_iff h).mpr (h.store.getBlock hget)

theorem Addressed.retrieve (cid : Cid) (priorityPeers : List String) :
    Addressed P (s.retrieve cid priorityPeers) := by
  unfold SmokeSession.retrieve
  split
  · rename_i data hget
    exact h.getBlock hget
  · exact h.ask cid _ _

theorem Addressed.pullChunk (cid : Cid) : Addressed P (s.pullChunk cid) := by
  unfold SmokeSession.pullChunk
  cases hopfs : s.store.readFromOPFS cid with
  | some data => exact (give_addressed_iff h).mpr (h.store.opfs cid data hopfs)
  | none =>
    cases hblock : s.store.blocks.get? cid with
    | some data =>
      have hcid := h.store.block cid data hblock
      exact ((give_addressed_iff h).mpr hcid).setStore (h.store.writeToOPFS hcid)
    | none => exact h.ask cid _ _

theorem Addressed.cache (cid : Cid) (peerHostname : Option String)
    (uploaderPub : Option Hex) (extraFallbacks : List String) :
    Addressed P (s.cache cid peerHostname uploaderPub extraFallbacks) := by
  unfold SmokeSession.cache
  split
  · exact h.setStore ((SmokeStore.within_markCached _ _ _).addressed h.store)
  · exact h.ask cid _ _

end

/-! ## An answer -/

/-- Are the bytes of a peer, in answer to `f`, written or returned? -/
def Kept (s : SmokeSession) (f : Fetch) (data : Bytes) : Prop :=
  match f.kind with
  | .retrieve | .pull => f.settled = false ∨ s.store.Storable data
  | .cache _ => f.settled = false ∧ s.store.Storable data

/-- An answer that is written or returned hashes to the CID that was asked for. -/
def AnswerHashes (P : Primitives F) (s : SmokeSession) : SmokeCall F → Prop
  | .answer n peer (some data) => ∀ f, s.fetches[n]? = some f → f.waiting.contains peer = true →
      s.Kept f data → computeCID P data = f.cid
  | _ => True

theorem storable_touchPeerFallback (s : SmokeStore) (peer : String) (data : Bytes) :
    (s.touchPeerFallback peer).Storable data ↔ s.Storable data := by
  unfold SmokeStore.Storable
  rw [SmokeStore.touchPeerFallback_opfs]

theorem receive_addressed_iff (h : Addressed P s) (f : Fetch) (peer : String) (data : Bytes) :
    Addressed P (s.receive f peer data) ↔ (s.Kept f data → computeCID P data = f.cid) := by
  have htouched : (s.store.touchPeerFallback peer).Addressed P :=
    (SmokeStore.within_touchPeerFallback _ _).addressed h.store
  have hrouted := SmokeStore.route_addressed_iff f.cid data htouched
  rw [storable_touchPeerFallback] at hrouted
  unfold SmokeSession.receive Kept
  cases f.kind with
  | retrieve =>
    simp only
    cases hsettled : f.settled with
    | true =>
      simp only [if_true, Bool.true_eq_false, false_or]
      exact ⟨fun hs => hrouted.mp hs.store, fun hcid => h.setStore (hrouted.mpr hcid)⟩
    | false =>
      simp only [Bool.false_eq_true, if_false, true_or, forall_const]
      constructor
      · intro hs
        exact hs.returned (f.cid, data)
          (List.mem_append_right _ (List.mem_singleton_self _))
      · intro hcid
        exact (give_addressed_iff (h.setStore (hrouted.mpr fun _ => hcid))).mpr hcid
  | pull =>
    simp only
    cases hsettled : f.settled with
    | true =>
      simp only [if_true, Bool.true_eq_false, false_or]
      exact ⟨fun hs => hrouted.mp hs.store, fun hcid => h.setStore (hrouted.mpr hcid)⟩
    | false =>
      simp only [Bool.false_eq_true, if_false, true_or, forall_const]
      constructor
      · intro hs
        exact hs.returned (f.cid, data)
          (List.mem_append_right _ (List.mem_singleton_self _))
      · intro hcid
        have hwritten := h.setStore (hrouted.mpr fun _ => hcid)
        exact ((give_addressed_iff hwritten).mpr hcid).setStore
          (hwritten.store.writeToOPFS hcid)
  | cache uploaderPub =>
    simp only
    cases hsettled : f.settled with
    | true =>
      simp only [if_true, Bool.true_eq_false, false_and]
      exact ⟨fun _ hfalse => hfalse.elim, fun _ => h⟩
    | false =>
      simp only [Bool.false_eq_true, if_false, true_and]
      have hplain := SmokeStore.route_addressed_iff f.cid data h.store
      constructor
      · intro hs
        exact hplain.mp ⟨hs.store.block, hs.store.opfs⟩
      · intro hcid
        have hwithin := SmokeStore.within_markCached
          (s.store.route f.cid data) f.cid uploaderPub
        exact h.setStore (hwithin.addressed (hplain.mpr hcid))

theorem answer_addressed_iff (h : Addressed P s) (n : Nat) (peer : String)
    (response : Option Bytes) :
    Addressed P (s.answer n peer response) ↔ AnswerHashes P s (.answer n peer response) := by
  unfold SmokeSession.answer
  cases hfetch : s.fetches[n]? with
  | none =>
    refine iff_of_true h ?_
    cases response with
    | none => trivial
    | some data =>
      intro f hf
      rw [hfetch] at hf
      cases hf
  | some f =>
    simp only
    split
    · rename_i hwaiting
      cases response with
      | none => exact iff_of_true ⟨h.store, h.returned⟩ trivial
      | some data =>
        have hasked (fetches : List Fetch) : Addressed P { s with fetches } :=
          ⟨h.store, h.returned⟩
        simp only
        refine (receive_addressed_iff (hasked _) f peer data).trans ?_
        constructor
        · intro hcid g hg _ hkept
          rw [hfetch] at hg
          cases hg
          exact hcid hkept
        · intro hcid hkept
          exact hcid f hfetch hwaiting hkept
    · rename_i hwaiting
      refine iff_of_true h ?_
      cases response with
      | none => trivial
      | some data =>
        intro g hg hmem
        rw [hfetch] at hg
        cases hg
        exact absurd hmem hwaiting

/-! ## A run -/

section Run

variable [JsNumber F] (P : Primitives F) (parse : Bytes → Option (Json F))

theorem step_addressed_iff {s : SmokeSession} (h : Addressed P s) (call : SmokeCall F) :
    Addressed P (step P parse s call) ↔ AnswerHashes P s call := by
  cases call with
  | answer n peer response => exact answer_addressed_iff h n peer response
  | store data => exact iff_of_true (h.setStore (h.store.store data)) trivial
  | storeWithMeta encrypt data fields now =>
    exact iff_of_true ⟨h.store.storeSealed encrypt true data fields now, h.returned⟩ trivial
  | storeWithMetaPublic data fields now =>
    exact iff_of_true ⟨h.store.storeSealed _ false data fields now, h.returned⟩ trivial
  | push cid data => exact iff_of_true (h.setStore h.store.pushReceive) trivial
  | retrieve cid priorityPeers => exact iff_of_true (h.retrieve cid priorityPeers) trivial
  | pullChunk cid => exact iff_of_true (h.pullChunk cid) trivial
  | cache cid peerHostname uploaderPub extraFallbacks =>
    exact iff_of_true (h.cache cid peerHostname uploaderPub extraFallbacks) trivial
  | timeout n => exact iff_of_true ⟨h.store, h.returned⟩ trivial
  | getBlock cid =>
    refine iff_of_true ?_ trivial
    simp only [step]
    cases hget : s.store.getBlock cid with
    | some data => exact h.getBlock hget
    | none => exact h
  | markCached cid uploaderPub =>
    exact iff_of_true (h.setStore ((SmokeStore.within_markCached _ _ _).addressed h.store))
      trivial
  | saveCacheGroup rootCid subCids =>
    exact iff_of_true
      ⟨(SmokeStore.within_saveCacheGroup _ _ _).addressed h.store, h.returned⟩ trivial
  | uncache cid => exact iff_of_true ⟨⟨h.store.block, h.store.opfs⟩, h.returned⟩ trivial
  | deleteBlock cid =>
    exact iff_of_true (h.setStore ((SmokeStore.within_deleteBlock _ _).addressed h.store)) trivial
  | clearCached =>
    exact iff_of_true (h.setStore ((SmokeStore.within_clearCached parse _).addressed h.store))
      trivial
  | clearAllContent =>
    have hnew := SmokeStore.addressed_new P s.store.opfsBlocks.isSome
    exact iff_of_true (h.setStore ⟨hnew.block, hnew.opfs⟩) trivial
  | addPeerFallback addr =>
    exact iff_of_true (h.setStore ((SmokeStore.within_addPeerFallback _ _).addressed h.store))
      trivial

omit [JsNumber F] in
theorem addressed_new (opfs : Bool) : Addressed P (new opfs) :=
  ⟨SmokeStore.addressed_new P opfs, fun r hr => by cases hr⟩

/-- What is stored and returned hashes to its CID throughout a run, if and only if every
answer of a peer that is written or returned hashes to the CID that was asked for. -/
theorem always_addressed_iff (opfs : Bool) (calls : List (SmokeCall F)) :
    Run.Always (step P parse) (Addressed P) (new opfs) calls ↔
      Run.StepsMeet (step P parse) (AnswerHashes P) (new opfs) calls :=
  Run.always_iff_stepsMeet (I := fun _ => True) (fun _ _ _ => trivial)
    (fun _ call _ h => step_addressed_iff P parse h call) trivial (addressed_new P opfs)

end Run

/-! ## A peer that answers with something else -/

/-- A block is asked for, and the only peer answers with one byte. -/
def poisonedRun (cid : Cid) : List (SmokeCall Rat) :=
  [.addPeerFallback "mallory", .retrieve cid [], .answer 0 "mallory" (some [0])]

/-- What a peer answers is stored and returned under the CID that was asked for. -/
theorem poisoned_answer_stored :
    ¬ ∀ (opfs : Bool) (calls : List (SmokeCall Rat)),
      Run.Always (step Sample.primitives fun _ => none) (Addressed Sample.primitives) (new opfs)
        calls := by
  intro hall
  have hstored : (Run.final (step Sample.primitives fun _ => none) (new true)
      (poisonedRun "bafy")).store.blocks.get? "bafy" = some [0] := by decide +kernel
  have hcid := (hall true (poisonedRun "bafy")).at_final.store.block "bafy" [0] hstored
  have hother : computeCID Sample.primitives [0] ≠ "bafy" := by decide +kernel
  exact hother hcid

end SmokeSession

end NeuronWeb
