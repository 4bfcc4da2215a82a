/-
  Node/WithdrawalSweep: does a withdrawal reach the holders (`sweepWithdrawnContent` in
  `network/node.ts`, `/files` in `relay/server.ts`)?

  A holder asks the archives for one page of withdrawals each, merges the answers and
  verifies what is left.  So the withdrawal of a file counts when its row is the newest that
  any answer has for the CID: it must be on a page, and no other row may stand before it.
-/
import NeuronWeb.Relay.FileArchive
import NeuronWeb.Storage.Deletion

set_option autoImplicit false

namespace NeuronWeb

variable {F : Type} [JsNumber F]

/-! ## The answer of an archive -/

/-- The body of `/files`. -/
def FileArchive.filesAnswer (s : FileArchive F) (network : Network) (query : FileQuery F) :
    Json F :=
  .obj [("records", .arr ((selectFileRecords (s.scopedRows network) query).map FileRow.row)),
    ("total", .int (countLiveFiles (s.scopedRows network)))]

/-- What the sweep asks for. -/
def withdrawnQuery : FileQuery F := ⟨none, none, true, some (JsNumber.ofInt 200)⟩

theorem answerRows_filesAnswer (s : FileArchive F) (network : Network) (query : FileQuery F) :
    answerRows (s.filesAnswer network query) =
      some ((selectFileRecords (s.scopedRows network) query).map FileRow.row) := rfl

/-! ## The sweep -/

/-- `sweepWithdrawnContent()`, with what the archives answer: the store, and how many CIDs were
dropped. -/
def sweepWithdrawnContent (parse : String → F) (verify : RecordVerifier) (storeStarted : Bool)
    (results : List (Option (Json F))) (store : SmokeStore) : SmokeStore × Nat :=
  if !storeStarted then (store, 0)
  else
    let held := store.cached
    if held.entries.isEmpty then (store, 0)
    else
      match fetchFileRecords parse results with
      | none => (store, 0)
      | some (records, _) =>
        if records.isEmpty then (store, 0)
        else
          let withdrawn := verifiedWithdrawals verify records
          let swept := withdrawn.keys.filter held.has
          (swept.foldl SmokeStore.deleteBlock store, swept.length)

/-! ## What is asked -/

namespace SmokeStore

/-- The CID is cached here, and no other CID has it in its group. -/
structure CachedRoot (s : SmokeStore) (cid : Cid) : Prop where
  cached : s.cached.has cid = true
  alone : ∀ root, root ≠ cid → cid ∉ s.groupOf root

/-- The CID and its group are gone. -/
def Removed (s s' : SmokeStore) (cid : Cid) : Prop :=
  ∀ x ∈ s.reached cid, s'.cached.has x = false ∧ s'.getBlock x = none

end SmokeStore

/-- The answers can be read, and the first of the newest rows that they have for the CID is a
withdrawal that its uploader has signed. -/
structure WithdrawalCounts (parse : String → F) (verify : RecordVerifier)
    (results : List (Option (Json F))) (cid : Cid) : Prop where
  iterable : ∀ body, some body ∈ results → (answerRows body).isSome = true
  convertible : ∀ cid, Comparable parse (rowsOf (servedRows results) cid)
  first : ∃ v r,
    Newest.IsNewest (laterRow parse) (realRow parse) (rowsOf (servedRows results) cid) v ∧
      verifiedRecord verify v = some r ∧ r.isRemoved = true

/-! ## Deleting one CID after the other -/

namespace SmokeStore

theorem cached_deleteBlock (s : SmokeStore) (root x : Cid) :
    (s.deleteBlock root).cached.get? x =
      if x ∈ s.reached root then none else s.cached.get? x := by
  have hchunks : (s.dropChunks root).cached = s.cached := by
    unfold dropChunks
    split <;> rfl
  have hgroup : ((s.dropChunks root).dropGroup root).cached.get? x =
      if x ∈ s.groupOf root then none else s.cached.get? x := by
    unfold dropGroup groupOf
    rw [dropChunks_cacheGroups]
    cases s.cacheGroups.get? root with
    | none => simp [hchunks]
    | some groupCids =>
      rw [← hchunks]
      exact JsMap.get?_deleteAll groupCids (s.dropChunks root).cached x
  rw [deleteBlock_eq]
  refine (JsMap.get?_deleteAll [root] ((s.dropChunks root).dropGroup root).cached x).trans ?_
  rw [hgroup, reached]
  by_cases hx : x = root
  · simp [hx]
  · by_cases hmem : x ∈ s.groupOf root <;> simp [hx, hmem]

theorem reached_deleteBlock (s : SmokeStore) {root j : Cid} (h : root ≠ j) :
    (s.deleteBlock root).reached j = s.reached j := by
  unfold reached
  rw [(indexes_deleteBlock s h).1]

theorem cached_foldl_deleteBlock {cids : List Cid} (hnodup : cids.Nodup) (s : SmokeStore)
    (x : Cid) : (cids.foldl deleteBlock s).cached.get? x =
      if x ∈ cids.flatMap s.reached then none else s.cached.get? x := by
  induction cids generalizing s with
  | nil => rfl
  | cons cid rest ih =>
    obtain ⟨hfresh, hrest⟩ := List.nodup_cons.mp hnodup
    have hsame : rest.flatMap (s.deleteBlock cid).reached = rest.flatMap s.reached := by
      refine List.flatMap_congr fun j hj => reached_deleteBlock s ?_
      rintro rfl
      exact hfresh hj
    rw [List.foldl_cons, ih hrest (s.deleteBlock cid), hsame, cached_deleteBlock,
      List.flatMap_cons]
    by_cases hlater : x ∈ rest.flatMap s.reached <;>
      by_cases hnow : x ∈ s.reached cid <;> simp [hlater, hnow]

theorem deletes_foldl_deleteBlock {cids : List Cid} (hnodup : cids.Nodup) (s : SmokeStore) :
    Deletes s (cids.foldl deleteBlock s) (cids.flatMap s.reached)
      (cids.flatMap s.reachedInOPFS) :=
  deletes_foldl_clearOne [] hnodup s

theorem removed_foldl_iff {s : SmokeStore} {cid : Cid} (hroot : s.CachedRoot cid)
    {cids : List Cid} (hnodup : cids.Nodup) :
    Removed s (cids.foldl deleteBlock s) cid ↔ cid ∈ cids := by
  have hself : cid ∈ s.reached cid := List.mem_append_right _ (List.mem_singleton_self cid)
  constructor
  · intro h
    have hunlisted := (JsMap.has_eq_false_iff _ _).mp (h cid hself).1
    rw [cached_foldl_deleteBlock hnodup] at hunlisted
    split at hunlisted
    · next hreached =>
        obtain ⟨root, hmem, hcid⟩ := List.mem_flatMap.mp hreached
        by_cases hsame : root = cid
        · exact hsame ▸ hmem
        · rcases List.mem_append.mp hcid with hgroup | hother
          · exact absurd hgroup (hroot.alone root hsame)
          · exact absurd (List.mem_singleton.mp hother).symm hsame
    · have hcached := hroot.cached
      rw [(JsMap.has_eq_false_iff _ _).mpr hunlisted] at hcached
      cases hcached
  · intro hmem x hx
    have hreached : x ∈ cids.flatMap s.reached := List.mem_flatMap.mpr ⟨cid, hmem, hx⟩
    constructor
    · rw [JsMap.has_eq_false_iff, cached_foldl_deleteBlock hnodup, if_pos hreached]
    · rw [← Option.not_isSome_iff_eq_none, (deletes_foldl_deleteBlock hnodup s).held_iff]
      have hopfs : x ∈ cids.flatMap s.reachedInOPFS :=
        List.mem_flatMap.mpr ⟨cid, hmem, List.mem_append_right _ hx⟩
      rintro (⟨hkept, -⟩ | ⟨hkept, -⟩)
      · exact hkept hreached
      · exact hkept hopfs

end SmokeStore

/-! ## One sweep -/

section Sweep

variable [OrderedJsNumber F] {parse : String → F} {verify : RecordVerifier}
  {results : List (Option (Json F))}

theorem withdrawn_values_iff {m : JsMap String (Json F)}
    (hm : (servedRows results).foldlM (mergeRow parse) JsMap.empty = some m) (cid : Cid) :
    (verifiedWithdrawals verify m.values).has cid = true ↔ ∃ v r,
      Newest.IsNewest (laterRow parse) (realRow parse) (rowsOf (servedRows results) cid) v ∧
        verifiedRecord verify v = some r ∧ r.isRemoved = true := by
  rw [withdrawn_iff]
  constructor
  · rintro ⟨r, hr, hremoved⟩
    obtain ⟨v, hget, hverified⟩ := (isNewestRecord_values_iff (rowCid_of_merged hm)).mp hr
    exact ⟨v, r, (get?_merged_iff hm cid v).mp hget, hverified, hremoved⟩
  · rintro ⟨v, r, hv, hverified, hremoved⟩
    exact ⟨r, (isNewestRecord_values_iff (rowCid_of_merged hm)).mpr
      ⟨v, (get?_merged_iff hm cid v).mpr hv, hverified⟩, hremoved⟩

/-- A sweep removes a cached root exactly when its withdrawal counts. -/
theorem removed_sweep_iff {s : SmokeStore} {cid : Cid} (hroot : s.CachedRoot cid) :
    s.Removed (sweepWithdrawnContent parse verify true results s).1 cid ↔
      WithdrawalCounts parse verify results cid := by
  have hkept : ∀ {s'}, s' = s → ¬ s.Removed s' cid := by
    rintro s' rfl h
    have hlisted := (h cid (List.mem_append_right _ (List.mem_singleton_self cid))).1
    rw [hroot.cached] at hlisted
    cases hlisted
  have hheld : s.cached.entries.isEmpty = false := by
    obtain ⟨v, hget⟩ := (JsMap.has_iff _ _).mp hroot.cached
    have hmem := (JsMap.get?_eq_some_iff _ _ _).mp hget
    rw [List.isEmpty_eq_false_iff]
    exact List.ne_nil_of_mem hmem
  unfold sweepWithdrawnContent
  simp only [Bool.not_true, Bool.false_eq_true, if_false, hheld]
  split
  · next hfetch =>
      refine iff_of_false (hkept rfl) fun hcounts => ?_
      obtain ⟨m, hm⟩ := mergeRows_iff.mpr hcounts.convertible
      obtain ⟨archiveTotals, hsome⟩ :=
        fetchFileRecords_iff.mpr ⟨hcounts.iterable, m, hm, rfl⟩
      rw [hfetch] at hsome
      cases hsome
  · next records archiveTotals hfetch =>
      obtain ⟨hiterable, m, hm, rfl⟩ := fetchFileRecords_iff.mp ⟨archiveTotals, hfetch⟩
      have hcounts : (verifiedWithdrawals verify m.values).has cid = true ↔
          WithdrawalCounts parse verify results cid := by
        rw [withdrawn_values_iff hm]
        exact ⟨fun h => ⟨hiterable, mergeRows_iff.mp ⟨m, hm⟩, h⟩, fun h => h.first⟩
      split
      · next hempty =>
          refine iff_of_false (hkept rfl) fun h => ?_
          have hhas := hcounts.mpr h
          rw [List.isEmpty_iff.mp hempty] at hhas
          cases hhas
      · have hnodup : ((verifiedWithdrawals verify m.values).keys.filter s.cached.has).Nodup :=
          (verifiedWithdrawals verify m.values).nodup.filter _
        rw [s.removed_foldl_iff hroot hnodup, ← hcounts, List.mem_filter,
          ← JsSet.has_iff_mem_keys]
        exact and_iff_left hroot.cached

end Sweep

/-- One completed sweep removes a cached root and its group if and only if the answers can be
read and the first of the newest rows that they have for the root is a signed withdrawal. -/
theorem sweep_removes_iff [OrderedJsNumber F] (parse : String → F) (verify : RecordVerifier)
    (results : List (Option (Json F))) (s : SmokeStore) (cid : Cid) (hroot : s.CachedRoot cid) :
    s.Removed (sweepWithdrawnContent parse verify true results s).1 cid ↔
      WithdrawalCounts parse verify results cid :=
  removed_sweep_iff hroot

/-! ## The page of an archive -/

/-- A withdrawal that an archive retains is on its page, when the page has room for all of its
withdrawals. -/
theorem withdrawal_served [OrderedJsNumber F] {s : FileArchive F} {network : Network}
    {cid : Cid} {v : ArchivedFile F} (hget : s.fileStore.get? (network, cid) = some v)
    (hremoved : v.record.isRemoved = true)
    (hroom : ((newestAsked (s.scopedRows network) withdrawnQuery).values.filter
      (FileQuery.onPage withdrawnQuery)).length ≤ (withdrawnQuery (F := F)).pageLimit) :
    v.row ∈ (selectFileRecords (s.scopedRows network) withdrawnQuery).map FileRow.row := by
  have hkey := Prod.mk.inj (s.keyed _ v hget)
  refine List.mem_map.mpr ⟨v.toFileRow, mem_selectFileRecords_of_room ?_ hremoved hroom, rfl⟩
  rw [get?_newestAsked, Newest.newest_eq_some_iff FileRow.later_ranking]
  refine Newest.isNewest_of_forall_eq FileRow.later_ranking ?_ ?_
  · refine List.mem_filter.mpr ⟨List.mem_filter.mpr ⟨?_, rfl⟩, decide_eq_true rfl⟩
    refine List.mem_filterMap.mpr ⟨v.row, ?_, v.toFileRow.read_row⟩
    exact List.mem_map.mpr ⟨v, List.mem_filter.mpr
      ⟨List.mem_map.mpr ⟨_, (JsMap.get?_eq_some_iff _ _ _).mp hget, rfl⟩,
        decide_eq_true hkey.1.symm⟩, rfl⟩
  · intro x hx
    obtain ⟨hasked, hcid⟩ := List.mem_filter.mp hx
    obtain ⟨row, hrow, hread⟩ := List.mem_filterMap.mp (List.mem_filter.mp hasked).1
    obtain ⟨w, hw, hnetwork, rfl⟩ := FileArchive.mem_scopedRows hrow
    have hx : x = w.toFileRow := Option.some.inj (hread.symm.trans w.toFileRow.read_row)
    obtain ⟨⟨k, w⟩, hentry, rfl⟩ := List.mem_map.mp hw
    have hwget := (JsMap.get?_eq_some_iff _ _ _).mpr hentry
    have hk := s.keyed k w hwget
    have hcid' : w.record.cid = v.record.cid := by
      rw [hx] at hcid
      exact of_decide_eq_true hcid
    rw [hnetwork, hcid', ← hkey.2] at hk
    rw [hk, hget] at hwget
    rw [hx, Option.some.inj hwget]

/-! ## A provider and two archives -/

namespace Sample

/-- The provider has cached the photo, which has one part. -/
def cachedPhoto : SmokeStore :=
  (((((SmokeStore.new true).route "photo" [1]).markCached "photo" (some "alice")).route
    "part" [2]).markCached "part" (some "alice")).saveCacheGroup "photo" ["part"]

theorem cachedRoot_photo : cachedPhoto.CachedRoot "photo" where
  cached := by decide +kernel
  alone root hroot := by
    have hgroups : cachedPhoto.cacheGroups = JsMap.empty.set "photo" ["part"] := by rfl
    rw [SmokeStore.groupOf, hgroups, JsMap.get?_set_ne _ _ (Ne.symm hroot)]
    exact List.not_mem_nil

/-- What an archive with the withdrawal answers. -/
def honestAnswer : Json Rat := FileArchive.Sample.withdrawn.filesAnswer .testnet withdrawnQuery

theorem withdrawal_retained : ∃ v, FileArchive.Sample.withdrawn.fileStore.get?
    (.testnet, "photo") = some v ∧ v.record.isRemoved = true ∧
      verifiedRecord FileArchive.Sample.archiveEnv.verify v.row = some v.record ∧
      v.record.timestamp = 2 := by
  have hfound : (FileArchive.Sample.withdrawn.fileStore.get? (.testnet, "photo")).any (fun v =>
      v.record.isRemoved && FileArchive.Sample.archiveEnv.verify (payloadFor v.record)
        v.record.uploaderPub v.record.signature && v.record.timestamp == 2) = true := by
    decide +kernel
  obtain ⟨v, hv, hall⟩ := (Option.any_eq_true _ _).mp hfound
  simp only [Bool.and_eq_true, beq_iff_eq] at hall
  exact ⟨v, hv, hall.1.1, verifiedRecord_eq_some_iff.mpr ⟨v.wellFormed, hall.1.2⟩, hall.2⟩

theorem honestRows {v : ArchivedFile Rat}
    (hv : FileArchive.Sample.withdrawn.fileStore.get? (.testnet, "photo") = some v) :
    ∀ row ∈ (selectFileRecords (FileArchive.Sample.withdrawn.scopedRows .testnet)
      withdrawnQuery).map FileRow.row, row = v.row := by
  intro row hrow
  obtain ⟨x, hx, rfl⟩ := List.mem_map.mp hrow
  have hone : (FileArchive.Sample.withdrawn.scopedRows .testnet).length = 1 := by decide +kernel
  obtain ⟨only, honly⟩ := List.length_eq_one_iff.mp hone
  have hself : v.row ∈ FileArchive.Sample.withdrawn.scopedRows .testnet := by
    have hnetwork := congrArg Prod.fst (FileArchive.Sample.withdrawn.keyed _ v hv)
    exact List.mem_map.mpr ⟨v, List.mem_filter.mpr
      ⟨List.mem_map.mpr ⟨_, (JsMap.get?_eq_some_iff _ _ _).mp hv, rfl⟩,
        decide_eq_true hnetwork.symm⟩, rfl⟩
  have hmem := (mem_selectFileRecords hx).1
  rw [honly, List.mem_singleton] at hself hmem
  rw [hmem, hself]

end Sample

open Sample

/-- One archive is down, the other has the withdrawal: the photo and its part are removed. -/
theorem sweep_removes_photo : cachedPhoto.Removed (sweepWithdrawnContent noParse
    FileArchive.Sample.archiveEnv.verify true [none, some honestAnswer] cachedPhoto).1 "photo" := by
  obtain ⟨v, hv, hremoved, hverified, -⟩ := withdrawal_retained
  have hserved : servedRows [none, some honestAnswer] =
      (selectFileRecords (FileArchive.Sample.withdrawn.scopedRows .testnet)
        withdrawnQuery).map FileRow.row := by
    simp [servedRows, honestAnswer, answerRows_filesAnswer]
  have hall := honestRows hv
  have hsame : ∀ cid, ∀ w ∈ rowsOf (servedRows [none, some honestAnswer]) cid, w = v.row :=
    fun cid w hw => hall w (hserved ▸ (List.mem_filter.mp hw).1)
  have hcid : rowCid v.row = some "photo" := by
    have hkey := Prod.mk.inj (FileArchive.Sample.withdrawn.keyed _ v hv)
    rw [rowCid_of_verified hverified, hkey.2]
  refine (sweep_removes_iff noParse _ _ cachedPhoto "photo" cachedRoot_photo).mpr ⟨?_, ?_, ?_⟩
  · intro body hbody
    rcases List.mem_pair.mp hbody with hnone | hsome
    · cases hnone
    · rw [Option.some.inj hsome]
      rfl
  · intro cid
    right
    intro w hw
    rw [hsame cid w hw, rowStamp_of_verified hverified]
    rfl
  · refine ⟨v.row, v.record, ?_, hverified, hremoved⟩
    refine Newest.isNewest_of_forall_eq laterRow_ranking ?_ (hsame "photo")
    refine List.mem_filter.mpr ⟨hserved ▸ ?_, decide_eq_true hcid⟩
    exact withdrawal_served hv hremoved (by decide +kernel)

/-- Another relay answers with a row for the photo that nobody has signed and that is dated
later: the photo stays. -/
theorem forged_row_stops_sweep : ¬ ∀ (parse : String → Rat) (verify : RecordVerifier)
    (archive : FileArchive Rat) (network : Network) (results : List (Option (Json Rat)))
    (s : SmokeStore) (cid : Cid) (v : ArchivedFile Rat),
    some (archive.filesAnswer network withdrawnQuery) ∈ results →
    archive.fileStore.get? (network, cid) = some v → v.record.isRemoved = true →
    verify (payloadFor v.record) v.record.uploaderPub v.record.signature = true →
    s.CachedRoot cid →
    s.Removed (sweepWithdrawnContent parse verify true results s).1 cid := by
  intro hall
  obtain ⟨v, hv, hremoved, hverified, hstamp⟩ := withdrawal_retained
  have hremove := hall noParse FileArchive.Sample.archiveEnv.verify
    FileArchive.Sample.withdrawn .testnet [some honestAnswer, answer [forgedRow 3]] cachedPhoto
    "photo" v List.mem_cons_self hv hremoved (verifiedRecord_eq_some_iff.mp hverified).2
    cachedRoot_photo
  obtain ⟨w, r, ⟨before, after, hrows, -, hbefore, hafter⟩, hw, -⟩ :=
    ((removed_sweep_iff cachedRoot_photo).mp hremove).first
  have hserved : servedRows [some honestAnswer, answer [forgedRow 3]] =
      (selectFileRecords (FileArchive.Sample.withdrawn.scopedRows .testnet)
        withdrawnQuery).map FileRow.row ++ [forgedRow 3] := by
    simp [servedRows, honestAnswer, answerRows_filesAnswer]
    rfl
  have hforged : forgedRow 3 ∈ before ++ w :: after := by
    rw [← hrows]
    refine List.mem_filter.mpr ⟨hserved ▸ List.mem_append_right _ List.mem_cons_self, ?_⟩
    exact decide_eq_true rfl
  have hunsigned : (verifiedRecord FileArchive.Sample.archiveEnv.verify
      (forgedRow 3)).isSome = false := by decide +kernel
  have hwv : w = v.row := by
    have hmem : w ∈ rowsOf (servedRows [some honestAnswer, answer [forgedRow 3]]) "photo" := by
      rw [hrows]
      simp
    rcases List.mem_append.mp (hserved ▸ (List.mem_filter.mp hmem).1) with hhonest | hforgery
    · exact honestRows hv w hhonest
    · rw [List.mem_singleton.mp hforgery] at hw
      rw [hw] at hunsigned
      cases hunsigned
  have hstampw : rowStamp noParse w = some 2 := by
    rw [hwv, rowStamp_of_verified hverified, hstamp]
  have hstampf : rowStamp noParse (forgedRow 3) = some 3 := by rfl
  have hlater : laterRow noParse (forgedRow 3) w = true := by
    rw [laterRow, hstampw, hstampf]
    decide +kernel
  rcases List.mem_append.mp hforged with hmem | hmem
  · rcases hbefore _ hmem with hnewer | hblank
    · have hranking : Newest.Ranking (laterRow noParse) (realRow noParse) := laterRow_ranking
      rw [hranking.asymm hlater] at hnewer
      cases hnewer
    · exact hblank ⟨3, hstampf, by decide +kernel⟩
  · rcases List.mem_cons.mp hmem with hsame | hmem
    · rw [← hsame] at hw
      rw [hw] at hunsigned
      cases hunsigned
    · rw [hafter _ hmem] at hlater
      cases hlater

end NeuronWeb
