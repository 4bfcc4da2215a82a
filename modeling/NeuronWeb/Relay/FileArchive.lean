/-
  Relay/FileArchive: the file records of an archive (`archiveFileRecord` in
  `relay/server.ts`).

  A withdrawal is stored in the place of the announcement, and an older announcement cannot
  replace it. `never_resurrected` says what must not arrive after that,
  `old_announcement_revives` is what happens when it does.
-/
import NeuronWeb.Content.FileQuery
import NeuronWeb.Foundation.Run
import NeuronWeb.Relay.FaceGate

set_option autoImplicit false

namespace NeuronWeb

variable {F : Type} [JsNumber F]

/-! ## The archive -/

/-- `{ ...rec, network }`. -/
def Json.withNetwork (v : Json F) (network : Network) : Json F :=
  match v with
  | .obj fields => .obj (JsMap.insert "network" (.str network.name) fields)
  | v => v

theorem isWellFormed_withNetwork (v : Json F) (network : Network) :
    isWellFormedFileRecord (v.withNetwork network) = isWellFormedFileRecord v := by
  have hsame : ∀ key, key ≠ "network" →
      (v.withNetwork network).property key = v.property key := by
    intro key hkey
    cases v with
    | obj fields =>
      have hfind := JsMap.find_insert "network" (Json.str network.name) fields key
      rw [if_neg (Ne.symm hkey)] at hfind
      exact hfind
    | _ => rfl
  unfold isWellFormedFileRecord
  rw [hsame "cid" (by decide), hsame "uploaderPub" (by decide), hsame "signature" (by decide),
    hsame "timestamp" (by decide), hsame "sizeBytes" (by decide), hsame "mimeType" (by decide),
    hsame "removed" (by decide)]

structure ArchivedFile (F : Type) [JsNumber F] extends FileRow F where
  network : Network

/-- `fileStore`, whose keys are `${network}:${cid}`: every row is under its own key. -/
structure FileArchive (F : Type) [JsNumber F] where
  fileStore : JsMap (Network × String) (ArchivedFile F)
  keyed : ∀ k v, fileStore.get? k = some v → k = (v.network, v.record.cid)

structure FileArchiveEnv where
  /-- `ARCHIVE_ENABLED`. -/
  archiveEnabled : Bool
  /-- `verifyFileSignature`. -/
  verify : RecordVerifier

def MAX_FILE_RECORDS : Nat := 200000

/-- A record seen on gossip, or fetched from another archive. -/
structure FileArrival (F : Type) where
  row : Json F
  network : Network
  /-- `Date.now()`. -/
  now : Int

namespace FileArchive

variable (s : FileArchive F)

/-- An archive that has nothing yet. -/
def empty : FileArchive F := ⟨JsMap.empty, fun _ _ h => by cases h⟩

def put (network : Network) (x : FileRow F) : FileArchive F where
  fileStore := s.fileStore.set (network, x.record.cid)
    ⟨⟨x.row.withNetwork network, x.record, by rw [isWellFormed_withNetwork, x.wellFormed]⟩, network⟩
  keyed k v h := by
    rw [JsMap.get?_set] at h
    split at h
    · next hk =>
        cases h
        exact hk.symm
    · exact s.keyed k v h

/-- The rows that a condition keeps. -/
def keep (p : Network × String → ArchivedFile F → Bool) : FileArchive F where
  fileStore := s.fileStore.filter p
  keyed k v h := s.keyed k v (JsMap.get?_of_get?_filter h).1

/-- Retire withdrawals nobody can still need. -/
def retire (network : Network) (cutNow : Int) : FileArchive F :=
  s.keep fun _ v => !(v.network = network && tombstoneExpired v.record cutNow)

/-- The keys of the oldest rows, as many as there are too many. -/
def oldest : List (Network × String) :=
  let excess := s.fileStore.entries.length - MAX_FILE_RECORDS
  ((s.fileStore.entries.mergeSort fun a b =>
    !JsNumber.lt b.2.record.timestamp a.2.record.timestamp).take excess).map Prod.fst

/-- Drop the oldest rows when there are too many. -/
def trim : FileArchive F :=
  if MAX_FILE_RECORDS < s.fileStore.entries.length then
    s.keep fun k _ => !s.oldest.contains k
  else s

variable (E : FileArchiveEnv)

/-- The row that is stored: well formed, newer than what is there, and signed. -/
def admitted (rec : Json F) (network : Network) : Option (FileRow F) :=
  if !E.archiveEnabled then none
  else
    (FileRow.read rec).filter fun x =>
      !((s.fileStore.get? (network, x.record.cid)).any fun existing =>
        JsNumber.le x.record.timestamp existing.record.timestamp) &&
      E.verify (payloadFor x.record) x.record.uploaderPub x.record.signature

/-- Archive a file announcement seen on the files topic (verified, newest wins). -/
def archiveFileRecord (a : FileArrival F) : FileArchive F :=
  match s.admitted E a.row a.network with
  | none => s
  | some x => ((s.put a.network x).retire a.network a.now).trim

/-- The rows that `/files` selects from. -/
def scopedRows (network : Network) : List (Json F) :=
  (s.fileStore.values.filter fun v => v.network = network).map fun v => v.row

/-! ## What is asked -/

/-- A live record of the uploader for the CID, from `t` or before. -/
structure Superseded (cid : String) (uploaderPub : Hex) (t : F) (r : FileRecord F) : Prop where
  cid_eq : r.cid = cid
  uploader_eq : r.uploaderPub = uploaderPub
  live : r.isRemoved = false
  old : JsNumber.le r.timestamp t = true

/-- The CID is presented as live through such a record: in the store, or in an answer. -/
def Presents (network : Network) (cid : String) (uploaderPub : Hex) (t : F) : Prop :=
  (∃ v ∈ s.fileStore.values, v.network = network ∧ Superseded cid uploaderPub t v.record) ∨
    ∃ query, ∃ x ∈ selectFileRecords (s.scopedRows network) query,
      Superseded cid uploaderPub t x.record

/-- What arrives is no such record with a good signature, unless the archive still has a row
for the CID that is not older. -/
def StillBlocked (network : Network) (cid : String) (uploaderPub : Hex) (t : F)
    (a : FileArrival F) : Prop :=
  ∀ r, a.network = network → isWellFormedFileRecord a.row = some r →
    Superseded cid uploaderPub t r → E.verify (payloadFor r) r.uploaderPub r.signature = true →
    ∃ v, s.fileStore.get? (network, cid) = some v ∧
      JsNumber.le r.timestamp v.record.timestamp = true

/-! ## The rows after a call -/

section Rows

variable {s E}

variable {k : Network × String}

theorem get?_of_keep {p : Network × String → ArchivedFile F → Bool}
    {v : ArchivedFile F} (h : (s.keep p).fileStore.get? k = some v) :
    s.fileStore.get? k = some v := (JsMap.get?_of_get?_filter h).1

theorem get?_put_of_left {network : Network} {x : FileRow F} {now : Int} {v : ArchivedFile F}
    (h : (((s.put network x).retire network now).trim).fileStore.get? k = some v) :
    (s.put network x).fileStore.get? k = some v := by
  unfold trim at h
  split at h
  · exact get?_of_keep (get?_of_keep h)
  · exact get?_of_keep h

theorem get?_left {network : Network} {x : FileRow F} {now : Int} {v : ArchivedFile F}
    (h : (((s.put network x).retire network now).trim).fileStore.get? k = some v) :
    (k = (network, x.record.cid) ∧ v.record = x.record) ∨
      (k ≠ (network, x.record.cid) ∧ s.fileStore.get? k = some v) := by
  have hset := get?_put_of_left h
  rw [put, JsMap.get?_set] at hset
  split at hset
  · next hk =>
      cases hset
      exact .inl ⟨hk.symm, rfl⟩
  · next hk => exact .inr ⟨Ne.symm hk, hset⟩

theorem mem_scopedRows {network : Network} {row : Json F} (h : row ∈ s.scopedRows network) :
    ∃ v ∈ s.fileStore.values, v.network = network ∧ v.row = row := by
  obtain ⟨v, hv, rfl⟩ := List.mem_map.mp h
  obtain ⟨hmem, hnetwork⟩ := List.mem_filter.mp hv
  exact ⟨v, hmem, of_decide_eq_true hnetwork, rfl⟩

variable {network : Network} {cid : String} {uploaderPub : Hex} {t : F}

theorem presents_iff : s.Presents network cid uploaderPub t ↔
    ∃ v, s.fileStore.get? (network, cid) = some v ∧ Superseded cid uploaderPub t v.record := by
  have hrow : ∀ v ∈ s.fileStore.values, v.network = network →
      Superseded cid uploaderPub t v.record →
      ∃ v, s.fileStore.get? (network, cid) = some v ∧ Superseded cid uploaderPub t v.record := by
    intro v hv hnetwork hold
    obtain ⟨⟨k, v⟩, hentry, rfl⟩ := List.mem_map.mp hv
    have hget := (JsMap.get?_eq_some_iff _ _ _).mpr hentry
    have hk := s.keyed k v hget
    rw [hnetwork, hold.cid_eq] at hk
    exact ⟨v, hk ▸ hget, hold⟩
  constructor
  · rintro (⟨v, hv, hnetwork, hold⟩ | ⟨query, x, hx, hold⟩)
    · exact hrow v hv hnetwork hold
    · obtain ⟨v, hv, hnetwork, hsame⟩ := mem_scopedRows (mem_selectFileRecords hx).1
      have hrecord : some v.record = some x.record := by
        rw [← v.wellFormed, hsame, x.wellFormed]
      exact hrow v hv hnetwork (Option.some.inj hrecord ▸ hold)
  · rintro ⟨v, hget, hold⟩
    have hnetwork := congrArg Prod.fst (s.keyed _ v hget)
    exact .inl ⟨v, List.mem_map.mpr ⟨_, (JsMap.get?_eq_some_iff _ _ _).mp hget, rfl⟩,
      hnetwork.symm, hold⟩

theorem admitted_eq_some {rec : Json F} {x : FileRow F}
    (h : s.admitted E rec network = some x) :
    isWellFormedFileRecord rec = some x.record ∧
      (∀ v, s.fileStore.get? (network, x.record.cid) = some v →
        JsNumber.le x.record.timestamp v.record.timestamp = false) ∧
      E.verify (payloadFor x.record) x.record.uploaderPub x.record.signature = true := by
  unfold admitted at h
  split at h
  · cases h
  · obtain ⟨hread, hpass⟩ := Option.filter_eq_some_iff.mp h
    simp only [Bool.and_eq_true, Bool.not_eq_true', Option.any_eq_false] at hpass
    refine ⟨(FileRow.read_eq_some_iff.mp hread).2, fun v hv => ?_, hpass.2⟩
    simpa using hpass.1 v hv

theorem not_presents_archive (h : ¬ s.Presents network cid uploaderPub t) {a : FileArrival F}
    (hblocked : s.StillBlocked E network cid uploaderPub t a) :
    ¬ (s.archiveFileRecord E a).Presents network cid uploaderPub t := by
  unfold archiveFileRecord
  split
  · exact h
  · next x hx =>
      obtain ⟨hread, hnewer, hverify⟩ := admitted_eq_some hx
      rw [presents_iff] at h ⊢
      rintro ⟨v, hget, hold⟩
      rcases get?_left hget with ⟨hk, hrecord⟩ | ⟨-, hbefore⟩
      · obtain ⟨hnetwork, hcid⟩ := Prod.mk.inj hk
        rw [hrecord] at hold
        obtain ⟨row, hrow, hle⟩ := hblocked x.record hnetwork.symm hread hold hverify
        rw [← hnetwork, ← hcid] at hnewer
        rw [hnewer row hrow] at hle
        cases hle
      · exact h ⟨v, hbefore, hold⟩

theorem not_presents_withdrawn {rec : Json F} {now : Int} {w : FileRow F}
    (h : s.admitted E rec network = some w) (hremoved : w.record.isRemoved = true) :
    ¬ (s.archiveFileRecord E ⟨rec, network, now⟩).Presents network w.record.cid uploaderPub t := by
  unfold archiveFileRecord
  simp only [h]
  rw [presents_iff]
  rintro ⟨v, hget, hold⟩
  rcases get?_left hget with ⟨-, hrecord⟩ | ⟨hk, -⟩
  · have hlive := hold.live
    rw [hrecord, hremoved] at hlive
    cases hlive
  · exact hk rfl

end Rows

/-- Once a withdrawal has been archived, its CID is not presented as live through an older
record of the uploader, in any run in which these are still blocked when they arrive. -/
theorem never_resurrected (E : FileArchiveEnv) (s : FileArchive F) (rec : Json F)
    (network : Network) (now : Int) (w : FileRow F)
    (hadmitted : s.admitted E rec network = some w) (hremoved : w.record.isRemoved = true)
    (later : List (FileArrival F))
    (hblocked : Run.StepsMeet (fun s a => s.archiveFileRecord E a)
      (fun s a => s.StillBlocked E network w.record.cid w.record.uploaderPub w.record.timestamp a)
      (s.archiveFileRecord E ⟨rec, network, now⟩) later) :
    Run.Always (fun s a => s.archiveFileRecord E a)
      (fun s => ¬ s.Presents network w.record.cid w.record.uploaderPub w.record.timestamp)
      (s.archiveFileRecord E ⟨rec, network, now⟩) later :=
  Run.always_of_invariant (fun _ _ h hb => not_presents_archive h hb) (fun _ h => h)
    (not_presents_withdrawn hadmitted hremoved) hblocked

/-! ## A withdrawal and a replay -/

namespace Sample

/-- A signature is the name of the signer and the payload. -/
def archiveEnv : FileArchiveEnv where
  archiveEnabled := true
  verify payload pub signature := signature == pub ++ " signed " ++ payload

/-- A record of alice as she signed it. -/
def signedRow (cid : String) (timestamp : Int) (removed : Bool) : Json Rat :=
  let payload := if removed then fileRemovePayload cid "alice" (timestamp : Rat)
    else "file:" ++ cid ++ ":" ++ JsNumber.toText (5 : Rat) ++ ":alice:" ++
      JsNumber.toText (timestamp : Rat)
  .obj [("cid", .str cid), ("sizeBytes", .int 5), ("timestamp", .int timestamp),
    ("uploaderPub", .str "alice"), ("signature", .str ("alice signed " ++ payload)),
    ("removed", .bool removed)]

def withdrawal : Json Rat := signedRow "photo" 2 true

/-- Another device of alice announces the photo again, as it was announced before. -/
def replay (now : Int) : FileArrival Rat := ⟨signedRow "photo" 1 false, .testnet, now⟩

/-- A file of its own, announced a day after the withdrawal. -/
def dayAfter : FileArrival Rat := ⟨signedRow "song" 86400003 false, .testnet, 86400003⟩

def withdrawn : FileArchive Rat :=
  empty.archiveFileRecord archiveEnv ⟨withdrawal, .testnet, 2⟩

end Sample

section Examples

open FileArchive.Sample

theorem admitted_withdrawal : ∃ w : FileRow Rat,
    empty.admitted archiveEnv withdrawal .testnet = some w ∧ w.record.isRemoved = true ∧
      w.record.cid = "photo" ∧ w.record.uploaderPub = "alice" ∧ w.record.timestamp = 2 := by
  have hfound : (empty.admitted archiveEnv withdrawal .testnet).any (fun w =>
      w.record.isRemoved && w.record.cid == "photo" && w.record.uploaderPub == "alice" &&
        w.record.timestamp == 2) = true := by decide +kernel
  obtain ⟨w, hw, hall⟩ := (Option.any_eq_true _ _).mp hfound
  simp only [Bool.and_eq_true, beq_iff_eq] at hall
  exact ⟨w, hw, hall.1.1.1, hall.1.1.2, hall.1.2, hall.2⟩

/-- The announcement is replayed while the withdrawal is there. -/
theorem never_resurrected_same_day : ∃ w : FileRow Rat,
    empty.admitted archiveEnv withdrawal .testnet = some w ∧
      Run.Always (fun s a => s.archiveFileRecord archiveEnv a)
        (fun s => ¬ s.Presents .testnet w.record.cid w.record.uploaderPub w.record.timestamp)
        withdrawn [replay 3, replay 4] := by
  obtain ⟨w, hw, hremoved, hcid, huploader, htimestamp⟩ := admitted_withdrawal
  refine ⟨w, hw, never_resurrected archiveEnv empty withdrawal .testnet 2 w hw hremoved _ ?_⟩
  have hblocks : ∀ s : FileArchive Rat, ((s.fileStore.get? (.testnet, "photo")).any fun v =>
      v.record.timestamp == 2) = true → ∀ now,
      s.StillBlocked archiveEnv .testnet w.record.cid w.record.uploaderPub w.record.timestamp
        (replay now) := by
    intro s hs now r _ _ hold _
    obtain ⟨v, hv, hstamp⟩ := (Option.any_eq_true _ _).mp hs
    refine ⟨v, hcid ▸ hv, ?_⟩
    rw [beq_iff_eq.mp hstamp, ← htimestamp]
    exact hold.old
  exact ⟨hblocks withdrawn (by decide +kernel) 3,
    hblocks (withdrawn.archiveFileRecord archiveEnv (replay 3)) (by decide +kernel) 4, trivial⟩

/-- The archive retires the withdrawal, and then takes the old announcement. -/
theorem old_announcement_revives :
    ¬ ∀ (E : FileArchiveEnv) (s : FileArchive Rat) (rec : Json Rat) (network : Network)
      (now : Int) (w : FileRow Rat), s.admitted E rec network = some w →
      w.record.isRemoved = true → ∀ later : List (FileArrival Rat),
      Run.Always (fun s a => s.archiveFileRecord E a)
        (fun s => ¬ s.Presents network w.record.cid w.record.uploaderPub w.record.timestamp)
        (s.archiveFileRecord E ⟨rec, network, now⟩) later := by
  intro hall
  obtain ⟨w, hw, hremoved, hcid, huploader, htimestamp⟩ := admitted_withdrawal
  have hnever := (hall archiveEnv empty withdrawal .testnet 2 w hw hremoved
    [dayAfter, replay 86400004]).at_final
  rw [presents_iff, hcid, huploader, htimestamp] at hnever
  have hrevived : (((withdrawn.archiveFileRecord archiveEnv dayAfter).archiveFileRecord archiveEnv
      (replay 86400004)).fileStore.get? (.testnet, "photo")).any (fun v =>
        v.record.cid == "photo" && v.record.uploaderPub == "alice" && !v.record.isRemoved &&
          JsNumber.le v.record.timestamp 2) = true := by decide +kernel
  obtain ⟨v, hv, hold⟩ := (Option.any_eq_true _ _).mp hrevived
  simp only [Bool.and_eq_true, Bool.not_eq_true', beq_iff_eq] at hold
  exact hnever ⟨v, hv, hold.1.1.1, hold.1.1.2, hold.1.2, hold.2⟩

end Examples

end FileArchive

end NeuronWeb
