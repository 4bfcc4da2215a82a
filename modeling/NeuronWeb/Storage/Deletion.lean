/-
  Storage/Deletion: does deleting one file leave the others alone?

  A deletion takes some CIDs out of `/blocks` and some out of OPFS; which ones is read off
  the side indexes before it starts.  A CID that another file needs survives when one of its
  copies is not among them.
-/
import NeuronWeb.Storage.ContentAddressed

set_option autoImplicit false

namespace NeuronWeb

variable {F : Type}

namespace SmokeStore

variable {s s' s'' : SmokeStore} {gone gone' opfsGone opfsGone' : List Cid}

/-! ## What a deletion takes -/

/-- `s'` is `s` without the CIDs `gone` of `/blocks` and the CIDs `opfsGone` of OPFS. -/
structure Deletes (s s' : SmokeStore) (gone opfsGone : List Cid) : Prop where
  blocks : ∀ j, s'.blocks.get? j = if j ∈ gone then none else s.blocks.get? j
  opfs : ∀ j, s'.readFromOPFS j = if j ∈ opfsGone then none else s.readFromOPFS j

theorem Deletes.none (s : SmokeStore) : Deletes s s [] [] := ⟨fun _ => rfl, fun _ => rfl⟩

theorem Deletes.trans (h : Deletes s s' gone opfsGone) (h' : Deletes s' s'' gone' opfsGone') :
    Deletes s s'' (gone ++ gone') (opfsGone ++ opfsGone') where
  blocks j := by
    rw [h'.blocks, h.blocks]
    by_cases hj : j ∈ gone <;> simp [hj]
  opfs j := by
    rw [h'.opfs, h.opfs]
    by_cases hj : j ∈ opfsGone <;> simp [hj]

/-- A copy of the CID is left. -/
def Spared (s : SmokeStore) (gone opfsGone : List Cid) (cid : Cid) : Prop :=
  (cid ∉ gone ∧ (s.blocks.get? cid).isSome = true) ∨
    (cid ∉ opfsGone ∧ (s.readFromOPFS cid).isSome = true)

theorem Deletes.held_iff (h : Deletes s s' gone opfsGone) (cid : Cid) :
    (s'.getBlock cid).isSome = true ↔ s.Spared gone opfsGone cid := by
  unfold getBlock Spared
  rw [h.blocks, h.opfs, Option.isSome_or, Bool.or_eq_true]
  refine or_congr ?_ ?_
  · by_cases hgone : cid ∈ gone <;> simp [hgone]
  · by_cases hgone : cid ∈ opfsGone <;> simp [hgone]

/-! ## One root -/

/-- The cache group of a CID. -/
def groupOf (s : SmokeStore) (cid : Cid) : List Cid := (s.cacheGroups.get? cid).getD []

/-- The chunks that the chunk index has for a CID. -/
def chunkCidsOf (s : SmokeStore) (cid : Cid) : List Cid := (s.chunkIndex.get? cid).getD []

/-- What `deleteBlock` takes out of `/blocks`: the group of the root, and the root. -/
def reached (s : SmokeStore) (root : Cid) : List Cid := s.groupOf root ++ [root]

/-- What `deleteBlock` takes out of OPFS: the indexed chunks as well. -/
def reachedInOPFS (s : SmokeStore) (root : Cid) : List Cid := s.chunkCidsOf root ++ s.reached root

theorem deletes_drop (s : SmokeStore) (cids : List Cid) : Deletes s (s.drop cids) cids cids :=
  ⟨JsMap.get?_deleteAll cids s.blocks, readFromOPFS_deleteFromOPFS s cids⟩

theorem deletes_deleteFromOPFS (s : SmokeStore) (cids : List Cid) :
    Deletes s (s.deleteFromOPFS cids) [] cids :=
  ⟨fun _ => rfl, readFromOPFS_deleteFromOPFS s cids⟩

theorem Deletes.setIndexes (h : Deletes s s' gone opfsGone)
    (chunkIndex cacheGroups : JsMap Cid (List Cid)) :
    Deletes s { s' with chunkIndex, cacheGroups } gone opfsGone :=
  ⟨h.blocks, h.opfs⟩

/-- The first step of `deleteBlock`, on the chunk index. -/
def dropChunks (s : SmokeStore) (root : Cid) : SmokeStore :=
  match s.chunkIndex.get? root with
  | some chunkCids => { s.deleteFromOPFS chunkCids with chunkIndex := s.chunkIndex.delete root }
  | none => s

/-- The second step of `deleteBlock`, on the cache group. -/
def dropGroup (s : SmokeStore) (root : Cid) : SmokeStore :=
  match s.cacheGroups.get? root with
  | some groupCids => { s.drop groupCids with cacheGroups := s.cacheGroups.delete root }
  | none => s

section

variable (s : SmokeStore)

theorem deleteBlock_eq (root : Cid) :
    s.deleteBlock root = ((s.dropChunks root).dropGroup root).drop [root] := rfl

theorem dropChunks_cacheGroups (root : Cid) : (s.dropChunks root).cacheGroups = s.cacheGroups := by
  unfold dropChunks
  split <;> rfl

theorem deletes_dropChunks (root : Cid) : Deletes s (s.dropChunks root) []
    (s.chunkCidsOf root) := by
  unfold dropChunks chunkCidsOf
  cases s.chunkIndex.get? root with
  | some chunkCids => exact (deletes_deleteFromOPFS s chunkCids).setIndexes _ _
  | none => exact .none s

theorem deletes_dropGroup (root : Cid) :
    Deletes s (s.dropGroup root) (s.groupOf root) (s.groupOf root) := by
  unfold dropGroup groupOf
  cases s.cacheGroups.get? root with
  | some groupCids => exact (deletes_drop s groupCids).setIndexes _ _
  | none => exact .none s

theorem deletes_deleteBlock (root : Cid) :
    Deletes s (s.deleteBlock root) (s.reached root) (s.reachedInOPFS root) := by
  have hgroup : (s.dropChunks root).groupOf root = s.groupOf root := by
    unfold groupOf
    rw [dropChunks_cacheGroups]
  have hdrop := (deletes_dropGroup (s.dropChunks root) root).trans (deletes_drop _ [root])
  rw [hgroup] at hdrop
  exact (deletes_dropChunks s root).trans hdrop

theorem indexes_deleteBlock {root j : Cid} (h : root ≠ j) :
    (s.deleteBlock root).groupOf j = s.groupOf j ∧
      (s.deleteBlock root).chunkCidsOf j = s.chunkCidsOf j := by
  have hchunks : (s.dropChunks root).chunkIndex.get? j = s.chunkIndex.get? j := by
    unfold dropChunks
    split
    · exact (JsMap.get?_delete s.chunkIndex root j).trans (if_neg h)
    · rfl
  have hgroups : ((s.dropChunks root).dropGroup root).cacheGroups.get? j =
      s.cacheGroups.get? j := by
    unfold dropGroup
    split
    · exact (JsMap.get?_delete _ root j).trans
        ((if_neg h).trans (by rw [dropChunks_cacheGroups]))
    · rw [dropChunks_cacheGroups]
  have hkept : ((s.dropChunks root).dropGroup root).chunkIndex =
      (s.dropChunks root).chunkIndex := by
    unfold dropGroup
    split <;> rfl
  rw [deleteBlock_eq]
  constructor
  · exact congrArg (Option.getD · []) hgroups
  · unfold chunkCidsOf
    have hdrop : (((s.dropChunks root).dropGroup root).drop [root]).chunkIndex =
        (s.dropChunks root).chunkIndex := hkept
    rw [hdrop, hchunks]

end

/-! ## All cached files -/

/-- What `clearCached` takes out of `/blocks` for one cached CID. -/
def clears (known : List Cid) (s : SmokeStore) (cid : Cid) : List Cid :=
  if known.contains cid then [cid] else s.reached cid

/-- What `clearCached` takes out of OPFS for one cached CID. -/
def clearsInOPFS (known : List Cid) (s : SmokeStore) (cid : Cid) : List Cid :=
  if known.contains cid then [cid] else s.reachedInOPFS cid

theorem deletes_clearOne (known : List Cid) (s : SmokeStore) (cid : Cid) :
    Deletes s (clearOne known s cid) (clears known s cid) (clearsInOPFS known s cid) := by
  unfold clearOne clears clearsInOPFS
  split
  · exact deletes_drop s [cid]
  · exact deletes_deleteBlock s cid

theorem clears_clearOne (known : List Cid) (s : SmokeStore) {cid j : Cid} (h : cid ≠ j) :
    clears known (clearOne known s cid) j = clears known s j ∧
      clearsInOPFS known (clearOne known s cid) j = clearsInOPFS known s j := by
  have hindexes : (clearOne known s cid).groupOf j = s.groupOf j ∧
      (clearOne known s cid).chunkCidsOf j = s.chunkCidsOf j := by
    unfold clearOne
    split
    · exact ⟨rfl, rfl⟩
    · exact indexes_deleteBlock s h
  unfold clears clearsInOPFS reachedInOPFS reached
  rw [hindexes.1, hindexes.2]
  exact ⟨rfl, rfl⟩

theorem deletes_foldl_clearOne (known : List Cid) {cids : List Cid} (hnodup : cids.Nodup) :
    ∀ s : SmokeStore, Deletes s (cids.foldl (clearOne known) s)
      (cids.flatMap (clears known s)) (cids.flatMap (clearsInOPFS known s)) := by
  induction cids with
  | nil => exact .none
  | cons cid rest ih =>
    intro s
    obtain ⟨hfresh, hrest⟩ := List.nodup_cons.mp hnodup
    have hsame : ∀ j ∈ rest, clears known (clearOne known s cid) j = clears known s j ∧
        clearsInOPFS known (clearOne known s cid) j = clearsInOPFS known s j := by
      intro j hj
      refine clears_clearOne known s ?_
      rintro rfl
      exact hfresh hj
    have hlater := ih hrest (clearOne known s cid)
    rw [List.flatMap_congr fun j hj => (hsame j hj).1,
      List.flatMap_congr fun j hj => (hsame j hj).2] at hlater
    exact (deletes_clearOne known s cid).trans hlater

section Clear

variable [JsNumber F] (parse : Bytes → Option (Json F)) (s : SmokeStore)

/-- The CIDs that `clearCached` takes for parts of cached files. -/
def knownSubCids : List Cid := s.cached.keys.flatMap (subCids parse s)

/-- What `clearCached` takes out of `/blocks`. -/
def cleared : List Cid := s.cached.keys.flatMap (clears (knownSubCids parse s) s)

/-- What `clearCached` takes out of OPFS. -/
def clearedInOPFS : List Cid := s.cached.keys.flatMap (clearsInOPFS (knownSubCids parse s) s)

theorem deletes_clearCached :
    Deletes s (s.clearCached parse) (cleared parse s) (clearedInOPFS parse s) :=
  deletes_foldl_clearOne (knownSubCids parse s) s.cached.nodup s

end Clear

/-! ## Files -/

/-- The manifest of the file and all of its content are held locally. -/
def Retrievable (s : SmokeStore) (f : StoredFile) : Prop :=
  ∀ cid ∈ f.root :: f.parts, (s.getBlock cid).isSome = true

instance (s : SmokeStore) (f : StoredFile) : Decidable (s.Retrievable f) :=
  inferInstanceAs (Decidable (∀ _ ∈ _, _))

theorem Deletes.retrievable_iff (h : Deletes s s' gone opfsGone) (f : StoredFile) :
    s'.Retrievable f ↔ ∀ cid ∈ f.root :: f.parts, s.Spared gone opfsGone cid :=
  forall₂_congr fun cid _ => h.held_iff cid

end SmokeStore

namespace SmokeSession

/-- Deleting the file `root` leaves every other file retrievable. -/
def DeletesAlone (s : SmokeSession) (root : Cid) : Prop :=
  ∀ f ∈ s.files, f.root ≠ root → s.store.Retrievable f.toStoredFile →
    (s.store.deleteBlock root).Retrievable f.toStoredFile

/-- Deleting the cached files leaves every upload of this node retrievable. -/
def ClearsOthersOnly [JsNumber F] (parse : Bytes → Option (Json F)) (s : SmokeSession) : Prop :=
  ∀ f ∈ s.files, f.own = true → s.store.Retrievable f.toStoredFile →
    (s.store.clearCached parse).Retrievable f.toStoredFile

/-- What another file needs has a copy that the indexes of `root` do not reach. -/
def RootApart (s : SmokeSession) (root : Cid) : Prop :=
  ∀ f ∈ s.files, f.root ≠ root → s.store.Retrievable f.toStoredFile →
    ∀ cid ∈ f.root :: f.parts,
      s.store.Spared (s.store.reached root) (s.store.reachedInOPFS root) cid

/-- What an upload needs has a copy that the indexes of the cached CIDs do not reach. -/
def CacheApart [JsNumber F] (parse : Bytes → Option (Json F)) (s : SmokeSession) : Prop :=
  ∀ f ∈ s.files, f.own = true → s.store.Retrievable f.toStoredFile →
    ∀ cid ∈ f.root :: f.parts,
      s.store.Spared (s.store.cleared parse) (s.store.clearedInOPFS parse) cid

/-- A deletion spares the other files, if and only if the side indexes of what it deletes
leave a copy of everything that these files need. -/
theorem deletion_spares_iff [JsNumber F] (parse : Bytes → Option (Json F)) (s : SmokeSession) :
    (∀ root, DeletesAlone s root ↔ RootApart s root) ∧
      (ClearsOthersOnly parse s ↔ CacheApart parse s) := by
  constructor
  · intro root
    have hdeletes := SmokeStore.deletes_deleteBlock s.store root
    exact forall₂_congr fun f _ => forall₂_congr fun _ _ => hdeletes.retrievable_iff f.toStoredFile
  · have hdeletes := SmokeStore.deletes_clearCached parse s.store
    exact forall₂_congr fun f _ => forall₂_congr fun _ _ => hdeletes.retrievable_iff f.toStoredFile

/-! ## A forged group -/

/-- The CID of a block that somebody pushes. -/
def pushedCid : Cid := computeCID Sample.primitives [2]

/-- The content CID of the node's own upload. -/
def uploadedCid : Cid := computeCID Sample.primitives [1]

/-- The node uploads a file, and then caches a pushed block whose cache request names the
content of that file as a part. -/
def forgedGroupRun : List (SmokeCall Rat) :=
  [.storeWithMetaPublic [1] [] 0, .push pushedCid [2], .cache pushedCid none none [],
    .cache uploadedCid none none [], .saveCacheGroup pushedCid [uploadedCid]]

/-- Deleting the cached block, or clearing the cache, destroys the upload. -/
theorem forged_group_destroys :
    ¬ (∀ (opfs : Bool) (calls : List (SmokeCall Rat)) (root : Cid),
        DeletesAlone (Run.final (step Sample.primitives fun _ => none) (new opfs) calls) root) ∧
      ¬ (∀ (opfs : Bool) (calls : List (SmokeCall Rat)),
        ClearsOthersOnly (F := Rat) (fun _ => none)
          (Run.final (step Sample.primitives fun _ => none) (new opfs) calls)) := by
  constructor
  · intro hall
    have hlost : ¬ ∀ f ∈ (Run.final (step Sample.primitives fun _ => none) (new true)
        forgedGroupRun).files, f.root ≠ pushedCid →
        (Run.final (step Sample.primitives fun _ => none) (new true)
          forgedGroupRun).store.Retrievable f.toStoredFile →
        ((Run.final (step Sample.primitives fun _ => none) (new true)
          forgedGroupRun).store.deleteBlock pushedCid).Retrievable f.toStoredFile := by
      decide +kernel
    exact hlost (hall true forgedGroupRun pushedCid)
  · intro hall
    have hlost : ¬ ∀ f ∈ (Run.final (step Sample.primitives fun _ => none) (new true)
        forgedGroupRun).files, f.own = true →
        (Run.final (step Sample.primitives fun _ => none) (new true)
          forgedGroupRun).store.Retrievable f.toStoredFile →
        ((Run.final (step Sample.primitives fun _ => none) (new true)
          forgedGroupRun).store.clearCached (F := Rat) fun _ => none).Retrievable
            f.toStoredFile := by
      decide +kernel
    exact hlost (hall true forgedGroupRun)

end SmokeSession

end NeuronWeb
