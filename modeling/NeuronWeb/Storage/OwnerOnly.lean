/-
  Storage/OwnerOnly: can others make a node drop or forget what it holds for an account?

  A delete request is checked against the uploader that the block's metadata names, and
  own uploads have no metadata.  A replace request is signed by somebody, and deletes what it
  lists whoever owns it.  An announcement is not checked at all.  So a run is harmless when
  what its messages reach is not what the node holds for the account.
-/
import NeuronWeb.Storage.Deletion
import NeuronWeb.Storage.Messages
import NeuronWeb.Storage.Settling

set_option autoImplicit false

namespace NeuronWeb

variable {F : Type}

/-- The messages of others about content. -/
inductive ContentMessage (F : Type) where
  | delete (req : DeleteRequest)
  | replace (req : ReplaceRequest) (fetched : Cid → Option Bytes) (timestamp : Int)
  | announce (a : FileIndexRecord F) (removed : Bool)

namespace SmokeStore

variable {s s' : SmokeStore}

/-! ## What a deletion leaves -/

/-- Nothing is lost from `s` to `s'`. -/
def Holds (s s' : SmokeStore) : Prop :=
  ∀ cid, (s.getBlock cid).isSome = true → (s'.getBlock cid).isSome = true

theorem holds_markCached (s : SmokeStore) (cid : Cid) (uploaderPub : Option Hex) :
    Holds s (s.markCached cid uploaderPub) := fun _ h => h

theorem holds_route (s : SmokeStore) (cid : Cid) (data : Bytes) : Holds s (s.route cid data) := by
  intro j h
  unfold getBlock at h ⊢
  rw [Option.isSome_or, Bool.or_eq_true] at h ⊢
  unfold route
  split
  · refine h.imp id fun hopfs => ?_
    rw [readFromOPFS_writeToOPFS]
    split
    · rfl
    · exact hopfs
  · refine h.imp (fun hblock => ?_) id
    simp only [JsMap.get?_set]
    split
    · rfl
    · exact hblock

theorem holds_cacheBlock {cid : Cid} {uploaderPub : Hex} {fetched : Option Bytes}
    (h : s.cacheBlock cid uploaderPub fetched = some s') : Holds s s' := by
  unfold cacheBlock at h
  split at h
  · cases h
    exact holds_markCached s cid _
  · obtain ⟨data, -, rfl⟩ := Option.map_eq_some_iff.mp h
    exact fun j hj => holds_markCached _ cid _ j (holds_route s cid data j hj)

theorem holds_cacheUntil (uploaderPub : Hex) (fetched : Cid → Option Bytes) (cids : List Cid)
    (s : SmokeStore) : Holds s (s.cacheUntil uploaderPub fetched cids).1 := by
  induction cids generalizing s with
  | nil => exact fun _ h => h
  | cons cid rest ih =>
    unfold cacheUntil
    split
    · rename_i s' hcache
      exact fun j hj => ih s' j (holds_cacheBlock hcache j hj)
    · exact fun _ h => h

variable (guarded : Cid → Prop)

/-- Deleting the CIDs one by one, each time a copy of everything guarded is left. -/
def SparesAll : List Cid → SmokeStore → Prop
  | [], _ => True
  | cid :: rest, s =>
    (∀ x, guarded x → s.Spared (s.reached cid) (s.reachedInOPFS cid) x) ∧
      SparesAll rest (s.deleteBlock cid)

/-- The metadata of the cached block names another uploader. -/
def UploadedByOther (s : SmokeStore) (ownerPub : Hex) (cid : Cid) : Prop :=
  ∃ uploaderPub, s.cachedMeta.get? cid = some uploaderPub ∧ uploaderPub ≠ "" ∧
    uploaderPub ≠ ownerPub

/-- The same for a delete request, which refuses what is known to be somebody else's. -/
def SparesUnlessRefused (ownerPub : Hex) : List Cid → SmokeStore → Prop
  | [], _ => True
  | cid :: rest, s =>
    (s.UploadedByOther ownerPub cid ∨
        ∀ x, guarded x → s.Spared (s.reached cid) (s.reachedInOPFS cid) x) ∧
      SparesUnlessRefused ownerPub rest (StorageManager.deleteFor ownerPub s cid)

/-- Everything guarded is held. -/
def HoldsAll (s : SmokeStore) : Prop := ∀ x, guarded x → (s.getBlock x).isSome = true

variable {guarded}

theorem holdsAll_deleteBlock {cid : Cid}
    (h : ∀ x, guarded x → s.Spared (s.reached cid) (s.reachedInOPFS cid) x) :
    (s.deleteBlock cid).HoldsAll guarded := fun x hx =>
  ((deletes_deleteBlock s cid).held_iff x).mpr (h x hx)

theorem holdsAll_foldl_deleteBlock {cids : List Cid} (hs : s.HoldsAll guarded)
    (h : SparesAll guarded cids s) : (cids.foldl deleteBlock s).HoldsAll guarded := by
  induction cids generalizing s with
  | nil => exact hs
  | cons cid rest ih => exact ih (holdsAll_deleteBlock h.1) h.2

theorem deleteFor_refused {ownerPub : Hex} {cid : Cid} (h : s.UploadedByOther ownerPub cid) :
    StorageManager.deleteFor ownerPub s cid = s := by
  obtain ⟨uploaderPub, hmeta, hnonempty, hother⟩ := h
  unfold StorageManager.deleteFor
  rw [hmeta]
  simp [hnonempty, hother]

theorem deleteFor_cases (ownerPub : Hex) (s : SmokeStore) (cid : Cid) :
    StorageManager.deleteFor ownerPub s cid = s ∨
      StorageManager.deleteFor ownerPub s cid = s.deleteBlock cid := by
  unfold StorageManager.deleteFor
  split
  · split
    · exact .inl rfl
    · exact .inr rfl
  · exact .inr rfl

theorem holdsAll_foldl_deleteFor {ownerPub : Hex} {cids : List Cid} (hs : s.HoldsAll guarded)
    (h : SparesUnlessRefused guarded ownerPub cids s) :
    (cids.foldl (StorageManager.deleteFor ownerPub) s).HoldsAll guarded := by
  induction cids generalizing s with
  | nil => exact hs
  | cons cid rest ih =>
    refine ih ?_ h.2
    rcases h.1 with hrefused | hspared
    · rw [deleteFor_refused hrefused]
      exact hs
    · rcases deleteFor_cases ownerPub s cid with hsame | hdeleted
      · rw [hsame]
        exact hs
      · rw [hdeleted]
        exact holdsAll_deleteBlock hspared

end SmokeStore

namespace StorageManager

variable [JsNumber F] (E : StorageEnv F)

/-- The handler of a message. -/
def onMessage (m : StorageManager F) : ContentMessage F → StorageManager F
  | .delete req => m.handleDeleteRequest E req
  | .replace req fetched timestamp => (m.handleReplaceRequest E req fetched timestamp).1
  | .announce a removed => m.onFileAnnouncement a removed

/-! ## What is an account's -/

/-- The node holds the block for `A`: it is one of the uploads of `A` here, or is cached as
uploaded by `A`. -/
def HeldFor (A : Hex) (uploads : List Cid) (m : StorageManager F) (cid : Cid) : Prop :=
  (m.store.getBlock cid).isSome = true ∧
    (cid ∈ uploads ∨ m.store.cachedMeta.get? cid = some A)

/-- What `start` held for `A` and recorded as owned by `A` is there in `m`. -/
structure Guarded (A : Hex) (uploads : List Cid) (start m : StorageManager F) : Prop where
  blocks : m.store.HoldsAll (HeldFor A uploads start)
  tracked : ∀ cid t, start.trackedCids.get? cid = some t → t.ownerPub = A →
    m.trackedCids.get? cid = some t
  index : ∀ cid rec, start.fileIndex.get? cid = some rec → rec.uploaderPub = A →
    m.fileIndex.get? cid = some rec

/-- The message carries no signature of `A`. -/
def NotSignedBy (A : Hex) : ContentMessage F → Prop
  | .delete req => E.verifyMsg req.signature req.payload A = false
  | .replace req _ _ => E.verifyMsg req.signature req.payload A = false
  | .announce _ _ => True

/-- No entry under this CID is owned by `A`. -/
def NotTracked (A : Hex) (m : StorageManager F) (cid : Cid) : Prop :=
  ∀ t, m.trackedCids.get? cid = some t → t.ownerPub ≠ A

def NotIndexed (A : Hex) (m : StorageManager F) (cid : Cid) : Prop :=
  ∀ rec, m.fileIndex.get? cid = some rec → rec.uploaderPub ≠ A

/-- What the message reaches, once its own signature is good, is not `A`'s: the blocks it
deletes leave a copy of what was held for `A`, and the entries it removes are others'. -/
def ReachesOthers (A : Hex) (uploads : List Cid) (start m : StorageManager F) :
    ContentMessage F → Prop
  | .delete req => E.verifyMsg req.signature req.payload req.ownerPub = true →
      SmokeStore.SparesUnlessRefused (HeldFor A uploads start) req.ownerPub req.cids m.store ∧
        ∀ cid, req.cids.head? = some cid → NotTracked A m cid ∧ NotIndexed A m cid
  | .replace req _ _ => E.verifyMsg req.signature req.payload req.ownerPub = true →
      SmokeStore.SparesAll (HeldFor A uploads start) (req.oldCid :: req.oldAdditionalCids)
        m.store ∧
        ∀ t, m.trackedCids.get? req.oldCid = some t → t.ownerPub = req.ownerPub →
          NotIndexed A m req.oldCid
  | .announce a _ => m.localKeys.has a.uploaderPub = true → NotIndexed A m a.cid

variable {E} {A : Hex} {uploads : List Cid} {start m : StorageManager F}

/-! ## One message -/

section

variable (h : Guarded A uploads start m)
include h

section

omit [JsNumber F]

theorem Guarded.setStore {store : SmokeStore}
    (hstore : store.HoldsAll (HeldFor A uploads start)) :
    Guarded A uploads start { m with store } := ⟨hstore, h.tracked, h.index⟩

theorem Guarded.forget {cid : Cid} (htracked : NotTracked A m cid)
    (hindexed : NotIndexed A m cid) : Guarded A uploads start (m.forget cid) where
  blocks := h.blocks
  tracked j t hstart howner := by
    have hj := h.tracked j t hstart howner
    refine (JsMap.get?_delete m.trackedCids cid j).trans ((if_neg ?_).trans hj)
    rintro rfl
    exact htracked t hj howner
  index j rec hstart howner := by
    have hj := h.index j rec hstart howner
    refine (JsMap.get?_delete m.fileIndex cid j).trans ((if_neg ?_).trans hj)
    rintro rfl
    exact hindexed rec hj howner

theorem guarded_delete {req : DeleteRequest}
    (hreach : ReachesOthers E A uploads start m (.delete req)) :
    Guarded A uploads start (m.handleDeleteRequest E req) := by
  unfold handleDeleteRequest
  split
  · exact h
  · split
    · exact h
    · rename_i hverify
      obtain ⟨hspares, hprimary⟩ := hreach (by simpa using hverify)
      split
      · exact h
      · have hkept := h.setStore (SmokeStore.holdsAll_foldl_deleteFor h.blocks hspares)
        simp only
        cases hcids : req.cids with
        | nil =>
          rw [hcids] at hkept
          exact hkept
        | cons cid rest =>
          obtain ⟨htracked, hindexed⟩ := hprimary cid (by rw [hcids]; rfl)
          rw [hcids] at hkept
          exact hkept.forget htracked hindexed

end

theorem guarded_replace {req : ReplaceRequest} {fetched : Cid → Option Bytes} {timestamp : Int}
    (hsigned : E.verifyMsg req.signature req.payload A = false)
    (hreach : ReachesOthers E A uploads start m (.replace req fetched timestamp)) :
    Guarded A uploads start (m.handleReplaceRequest E req fetched timestamp).1 := by
  unfold handleReplaceRequest
  split
  · exact h
  · split
    · exact h
    · rename_i hverify
      have hverified : E.verifyMsg req.signature req.payload req.ownerPub = true := by
        simpa using hverify
      obtain ⟨hspares, hindex⟩ := hreach hverified
      have hother : req.ownerPub ≠ A := by
        intro howner
        rw [howner, hsigned] at hverified
        cases hverified
      split
      · exact h
      · simp only
        have hdeleted := SmokeStore.holdsAll_foldl_deleteBlock h.blocks hspares
        have hcached : ∀ store : SmokeStore, store.HoldsAll (HeldFor A uploads start) →
            (store.cacheUntil req.ownerPub fetched
              (req.newCid :: req.newAdditionalCids)).1.HoldsAll (HeldFor A uploads start) :=
          fun store hstore x hx => SmokeStore.holds_cacheUntil _ _ _ _ x (hstore x hx)
        have hforget : ∀ store : SmokeStore, store.HoldsAll (HeldFor A uploads start) → ∀ t,
            m.trackedCids.get? req.oldCid = some t → t.ownerPub = req.ownerPub →
            Guarded A uploads start (({ m with store } : StorageManager F).forget req.oldCid) := by
          intro store hstore t htracked howner
          refine (h.setStore hstore).forget ?_ (hindex t htracked howner)
          intro t' ht'
          have hsame : t' = t := Option.some.inj (ht'.symm.trans htracked)
          rw [hsame, howner]
          exact hother
        cases m.replacingProvider.filter (m.wasProvider · req.oldCid) with
        | none =>
          cases htracked : m.trackedCids.get? req.oldCid with
          | none => exact h.setStore hdeleted
          | some t =>
            simp only
            split
            · exact hforget _ hdeleted t htracked ‹_›
            · exact h.setStore hdeleted
        | some pub =>
          cases htracked : m.trackedCids.get? req.oldCid with
          | none => exact h.setStore (hcached _ hdeleted)
          | some t =>
            simp only
            split
            · exact hforget _ (hcached _ hdeleted) t htracked ‹_›
            · exact h.setStore (hcached _ hdeleted)

omit [JsNumber F] in
theorem guarded_announce {a : FileIndexRecord F} {removed : Bool}
    (hreach : ReachesOthers E A uploads start m (.announce a removed)) :
    Guarded A uploads start (m.onFileAnnouncement a removed) := by
  unfold onFileAnnouncement
  split
  · exact h
  · rename_i hlocal
    have hindexed := hreach (by simpa using hlocal)
    split
    · refine ⟨h.blocks, h.tracked, fun j rec hstart howner => ?_⟩
      have hj := h.index j rec hstart howner
      refine (JsMap.get?_delete m.fileIndex a.cid j).trans ((if_neg ?_).trans hj)
      rintro rfl
      exact hindexed rec hj howner
    · refine ⟨h.blocks, h.tracked, fun j rec hstart howner => ?_⟩
      have hj := h.index j rec hstart howner
      refine (JsMap.get?_set_ne m.fileIndex a ?_).trans hj
      rintro rfl
      exact hindexed rec hj howner

end

theorem guarded_step (message : ContentMessage F) (h : Guarded A uploads start m)
    (hsigned : NotSignedBy E A message) (hreach : ReachesOthers E A uploads start m message) :
    Guarded A uploads start (m.onMessage E message) := by
  cases message with
  | delete req => exact guarded_delete h hreach
  | replace req fetched timestamp => exact guarded_replace h hsigned hreach
  | announce a removed => exact guarded_announce h hreach

/-- In a run of messages that `A` has not signed, and that reach what is others', everything
that the node held for `A` stays. -/
theorem guarded_always (E : StorageEnv F) (A : Hex) (uploads : List Cid)
    (start : StorageManager F) (messages : List (ContentMessage F))
    (hmessages : Run.StepsMeet (onMessage E) (fun m message =>
      NotSignedBy E A message ∧ ReachesOthers E A uploads start m message) start messages) :
    Run.Always (onMessage E) (Guarded A uploads start) start messages :=
  Run.always_of_invariant (I := Guarded A uploads start)
    (fun _ message h hmessage => guarded_step message h hmessage.1 hmessage.2) (fun _ h => h)
    ⟨fun _ hx => hx.1, fun _ _ h _ => h, fun _ _ h _ => h⟩ hmessages

/-! ## An upload and a stranger -/

namespace Sample

/-- The account `aa` has uploaded a public file here. -/
def upload : SmokeStore × SmokeStore.StoredFile :=
  (SmokeStore.new true).storeWithMetaPublic hexPrimitives [1] [] 0

def uploadedCids : List Cid := upload.2.root :: upload.2.parts

/-- The node tracks the upload and indexes it. -/
def hosting : StorageManager Rat :=
  { idle "desk" (JsMap.empty.set "aa" appKey) with
    store := upload.1
    trackedCids := JsMap.empty.set upload.2.root ⟨"aa", JsMap.empty, upload.2.parts⟩
    fileIndex := JsMap.empty.set upload.2.root ⟨upload.2.root, none, none, 0, "aa"⟩ }

/-- A delete request for one CID, signed by the stranger `mallory`. -/
def deleteBy (cid : Cid) : DeleteRequest :=
  let req : DeleteRequest := ⟨[cid], "mallory", 7, ""⟩
  { req with signature := Sample.signature req.payload "mallory" }

theorem heldFor_hosting {x : Cid} (h : HeldFor "aa" uploadedCids hosting x) :
    x ∈ uploadedCids := by
  rcases h.2 with hupload | hcached
  · exact hupload
  · have hnone : hosting.store.cachedMeta = JsMap.empty := by rfl
    rw [hnone] at hcached
    cases hcached

end Sample

section Examples

open StorageManager.Sample

/-- A stranger deletes a CID that the upload does not use, and announces it. -/
theorem guarded_always_elsewhere :
    Run.Always (onMessage env) (Guarded "aa" uploadedCids hosting) hosting
      [.delete (deleteBy "elsewhere"),
        .announce ⟨"elsewhere", none, none, 1, "mallory"⟩ false] := by
  refine guarded_always env "aa" uploadedCids hosting _ ⟨⟨?_, ?_⟩, ⟨trivial, ?_⟩, trivial⟩
  · have hsigned : env.verifyMsg (deleteBy "elsewhere").signature (deleteBy "elsewhere").payload
        "aa" = false := by decide +kernel
    exact hsigned
  · refine fun _ => ⟨⟨.inr fun x hx => ?_, trivial⟩, fun cid hcid => ⟨fun t ht => ?_,
      fun rec hrec => ?_⟩⟩
    · have hspared : ∀ x ∈ uploadedCids, (x ∉ hosting.store.reached "elsewhere" ∧
          (hosting.store.blocks.get? x).isSome = true) := by decide +kernel
      exact .inl (hspared x (heldFor_hosting hx))
    · cases hcid
      have hnone : hosting.trackedCids.get? "elsewhere" = none := by decide +kernel
      rw [hnone] at ht
      cases ht
    · cases hcid
      have hnone : (hosting.fileIndex.get? "elsewhere").isNone = true := by decide +kernel
      rw [hrec] at hnone
      cases hnone
  · intro hlocal
    have hforeign : ((hosting.onMessage env (.delete (deleteBy "elsewhere"))).localKeys.has
        "mallory") = false := by decide +kernel
    rw [hforeign] at hlocal
    cases hlocal

/-- A stranger deletes the upload: the node drops the block and stops tracking it. -/
theorem stranger_deletes_upload :
    ¬ ∀ (E : StorageEnv Rat) (A : Hex) (uploads : List Cid) (start : StorageManager Rat)
      (messages : List (ContentMessage Rat)),
      Run.StepsMeet (onMessage E) (fun _ message => NotSignedBy E A message) start messages →
      Run.Always (onMessage E) (Guarded A uploads start) start messages := by
  intro hall
  have hrun := hall env "aa" uploadedCids hosting [.delete (deleteBy upload.2.root)] (by
    have hsigned : env.verifyMsg (deleteBy upload.2.root).signature
        (deleteBy upload.2.root).payload "aa" = false := by decide +kernel
    exact ⟨hsigned, trivial⟩)
  have hheld : HeldFor "aa" uploadedCids hosting upload.2.root :=
    ⟨by decide +kernel, .inl List.mem_cons_self⟩
  have hblock := hrun.2.blocks upload.2.root hheld
  have hgone : ((hosting.onMessage env (.delete (deleteBy upload.2.root))).store.getBlock
      upload.2.root).isSome = false := by decide +kernel
  rw [hgone] at hblock
  cases hblock

end Examples

end StorageManager

end NeuronWeb
