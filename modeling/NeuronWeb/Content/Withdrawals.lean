/-
  Content/Withdrawals: who can withdraw a file.

  The bytes of a file are deleted on every holder once its CID is among the
  `verifiedWithdrawals`, so a withdrawal should count only when the account that announced
  the file signed it.  What is signed is checked; that the signer is the announcer is not:
  among the verified records of a CID the newest one decides, whoever signed it.
-/
import NeuronWeb.Content.FileIndex

set_option autoImplicit false

namespace NeuronWeb

variable {F : Type} [JsNumber F]

/-- A withdrawal that another account than the announcer signed. -/
def FileRecord.isForeign (announcer : Hex) (r : FileRecord F) : Bool :=
  r.isRemoved && r.uploaderPub != announcer

/-- A row that is a withdrawal of the CID by another account. -/
def foreignRow (cid : String) (announcer : Hex) (v : Json F) : Bool :=
  match isWellFormedFileRecord v with
  | none => false
  | some r => r.cid == cid && r.isForeign announcer

/-- The rows without the withdrawals of the CID by other accounts. -/
def withoutForeign (cid : String) (announcer : Hex) (records : List (Json F)) : List (Json F) :=
  records.filter fun v => !foreignRow cid announcer v

/-- Only the announcer withdraws the file: a CID is withdrawn only if the announcer signed a
withdrawal, and the withdrawals other accounts signed change neither that nor the
announcer's listing. -/
structure OnlyPublisherWithdraws (verify : RecordVerifier) (signed : Hex → String → Prop)
    (records : List (Json F)) (cid : String) (announcer : Hex) : Prop where
  signed_by_announcer : (verifiedWithdrawals verify records).has cid = true →
    ∃ timestamp : F, signed announcer (fileRemovePayload cid announcer timestamp)
  not_put : (verifiedWithdrawals verify records).has cid = true →
    (verifiedWithdrawals verify (withoutForeign cid announcer records)).has cid = true
  live_kept : ∀ r,
    (foldFileRecords verify (withoutForeign cid announcer records)).get? cid = some r →
    r.uploaderPub = announcer → (foldFileRecords verify records).get? cid = some r

/-- Where the newest verified record of the CID is another account's withdrawal, the newest
of its other verified records is a withdrawal too, the announcer's own. -/
def NotOutbid (verify : RecordVerifier) (records : List (Json F)) (cid : String)
    (announcer : Hex) : Prop :=
  ∀ t, IsNewestRecord (verifiedOf verify records cid) t → t.isForeign announcer = true →
    ∃ w, IsNewestRecord ((verifiedOf verify records cid).filter fun r => !r.isForeign announcer) w ∧
      w.isRemoved = true

variable {verify : RecordVerifier} {records : List (Json F)} {cid : String} {announcer : Hex}

theorem verifiedOf_withoutForeign :
    verifiedOf verify (withoutForeign cid announcer records) cid =
      (verifiedOf verify records cid).filter fun r => !r.isForeign announcer := by
  unfold verifiedOf withoutForeign
  induction records with
  | nil => rfl
  | cons v records ih =>
    cases hv : verifiedRecord verify v with
    | none =>
      rw [List.filterMap_cons_none hv, ← ih]
      by_cases hforeign : foreignRow cid announcer v = true
      · rw [List.filter_cons_of_neg (by simp [hforeign])]
      · rw [List.filter_cons_of_pos (by simp [hforeign]), List.filterMap_cons_none hv]
    | some r =>
      have hrow : foreignRow cid announcer v = (r.cid == cid && r.isForeign announcer) := by
        rw [foreignRow, (verifiedRecord_eq_some_iff.mp hv).1]
      rw [List.filterMap_cons_some hv]
      by_cases hcid : r.cid = cid
      · by_cases hforeign : r.isForeign announcer = true
        · rw [List.filter_cons_of_neg (by simp [hrow, hcid, hforeign]), ih]
          simp [hcid, hforeign]
        · rw [List.filter_cons_of_pos (by simp [hrow, hforeign]),
            List.filterMap_cons_some hv]
          simp [hcid, hforeign, ih]
      · rw [List.filter_cons_of_pos (by simp [hrow, hcid]), List.filterMap_cons_some hv]
        simp [hcid, ih]

theorem uploader_of_own {r : FileRecord F} (hown : r.isForeign announcer = false)
    (hremoved : r.isRemoved = true) : r.uploaderPub = announcer := by
  simpa [FileRecord.isForeign, hremoved] using hown

theorem signed_of_withdrawal {signed : Hex → String → Prop}
    (hsound : ∀ payload pub signature, verify payload pub signature = true → signed pub payload)
    {w : FileRecord F} (hmem : w ∈ verifiedOf verify records cid) (hremoved : w.isRemoved = true)
    (huploader : w.uploaderPub = announcer) :
    signed announcer (fileRemovePayload cid announcer w.timestamp) := by
  obtain ⟨⟨v, _, hv⟩, hcid⟩ := mem_verifiedOf_iff.mp hmem
  have hsigned := hsound _ _ _ (verifiedRecord_eq_some_iff.mp hv).2
  rwa [payloadFor, if_pos hremoved, hcid, huploader] at hsigned

theorem newest_own {n : FileRecord F} (hn : IsNewestRecord (verifiedOf verify records cid) n)
    (hown : n.isForeign announcer = false) :
    IsNewestRecord ((verifiedOf verify records cid).filter fun r => !r.isForeign announcer) n :=
  Newest.IsNewest.filter hn (fun _ _ => trivial) (by simp [hown])

variable [OrderedJsNumber F]

/-- Only the announcer withdraws a file exactly when its records are not outbid by another
account's withdrawal. -/
theorem onlyPublisherWithdraws_iff {signed : Hex → String → Prop}
    (hsound : ∀ payload pub signature, verify payload pub signature = true →
      signed pub payload) :
    OnlyPublisherWithdraws verify signed records cid announcer ↔
      NotOutbid verify records cid announcer := by
  constructor
  · intro h t ht hforeign
    have hremoved : t.isRemoved = true := (Bool.and_eq_true_iff.mp hforeign).1
    have hput := h.not_put ((withdrawn_iff verify records cid).mpr ⟨t, ht, hremoved⟩)
    rwa [withdrawn_iff, verifiedOf_withoutForeign] at hput
  · intro h
    -- a withdrawn CID has a newest own record that is a withdrawal
    have hown : (verifiedWithdrawals verify records).has cid = true →
        ∃ w, IsNewestRecord
          ((verifiedOf verify records cid).filter fun r => !r.isForeign announcer) w ∧
          w.isRemoved = true := by
      intro hput
      obtain ⟨t, ht, hremoved⟩ := (withdrawn_iff verify records cid).mp hput
      cases hforeign : t.isForeign announcer with
      | true => exact h t ht hforeign
      | false => exact ⟨t, newest_own ht hforeign, hremoved⟩
    refine ⟨?_, ?_, ?_⟩
    · intro hput
      obtain ⟨w, hw, hremoved⟩ := hown hput
      obtain ⟨hmem, hnot⟩ := List.mem_filter.mp (Newest.IsNewest.mem hw)
      have hforeign : w.isForeign announcer = false := by simpa using hnot
      exact ⟨w.timestamp,
        signed_of_withdrawal hsound hmem hremoved (uploader_of_own hforeign hremoved)⟩
    · intro hput
      rw [withdrawn_iff, verifiedOf_withoutForeign]
      exact hown hput
    · intro r hlisted _
      rw [listed_iff, verifiedOf_withoutForeign] at hlisted
      obtain ⟨hr, hlive⟩ := hlisted
      have hne : verifiedOf verify records cid ≠ [] :=
        List.ne_nil_of_mem (List.mem_filter.mp (Newest.IsNewest.mem hr)).1
      obtain ⟨n, hn⟩ := Newest.exists_newest FileRecord.later hne
      have hn := (isNewestRecord_iff _ n).mp hn
      have heq : n = r := by
        cases hforeign : n.isForeign announcer with
        | true =>
          obtain ⟨w, hw, hremoved⟩ := h n hn hforeign
          have hwr : w = r := Newest.IsNewest.unique FileRecord.later_ranking hw hr
          rw [hwr, hlive] at hremoved
          cases hremoved
        | false =>
          exact Newest.IsNewest.unique FileRecord.later_ranking (newest_own hn hforeign) hr
      rw [listed_iff]
      exact ⟨heq ▸ hn, hlive⟩

/-! ## A stranger's withdrawal -/

namespace Sample

/-- A row of a file record of five bytes. -/
def fileRow (cid uploaderPub signature : String) (timestamp : Int) (removed : Bool) : Json Rat :=
  .obj [("cid", .str cid), ("sizeBytes", .int 5), ("timestamp", .int timestamp),
    ("uploaderPub", .str uploaderPub), ("signature", .str signature), ("removed", .bool removed)]

/-- Alice announced the file at 2; mallory signed withdrawals of it, dated 1 and 3. -/
def fileSigned (pub payload : String) : Prop :=
  (pub, payload) ∈ [("alice", "file:photo:5/1:alice:2/1"),
    ("mallory", "file-remove:photo:mallory:1/1"), ("mallory", "file-remove:photo:mallory:3/1")]

instance (pub payload : String) : Decidable (fileSigned pub payload) :=
  inferInstanceAs (Decidable (_ ∈ _))

def fileVerify : RecordVerifier := fun payload pub signature =>
  signature == "sig of " ++ pub && fileSigned pub payload

theorem fileVerify_sound (payload pub signature : String)
    (h : fileVerify payload pub signature = true) : fileSigned pub payload :=
  of_decide_eq_true (Bool.and_eq_true_iff.mp h).2

def announcement : Json Rat := fileRow "photo" "alice" "sig of alice" 2 false

def strangersWithdrawal (timestamp : Int) : Json Rat :=
  fileRow "photo" "mallory" "sig of mallory" timestamp true

end Sample

/-- A withdrawal that a stranger signs and dates after the announcement withdraws the file
and hides it. -/
theorem strangers_withdrawal_counts : ¬ ∀ (verify : RecordVerifier)
    (signed : Hex → String → Prop) (records : List (Json Rat)) (cid : String) (announcer : Hex),
    (∀ payload pub signature, verify payload pub signature = true → signed pub payload) →
    (∃ r ∈ verifiedOf verify records cid, r.isRemoved = false ∧ r.uploaderPub = announcer) →
    OnlyPublisherWithdraws verify signed records cid announcer := by
  intro hall
  have hannounced : ∃ r ∈ verifiedOf Sample.fileVerify
      [Sample.announcement, Sample.strangersWithdrawal 3] "photo",
      r.isRemoved = false ∧ r.uploaderPub = "alice" := by decide +kernel
  have hput := (hall Sample.fileVerify Sample.fileSigned
    [Sample.announcement, Sample.strangersWithdrawal 3] "photo" "alice"
    Sample.fileVerify_sound hannounced).not_put (by decide +kernel)
  have hnot : (verifiedWithdrawals Sample.fileVerify (withoutForeign "photo" "alice"
      [Sample.announcement, Sample.strangersWithdrawal 3])).has "photo" = false := by
    decide +kernel
  rw [hnot] at hput
  cases hput

/-- One dated before the announcement does nothing. -/
theorem older_withdrawal_ignored : OnlyPublisherWithdraws Sample.fileVerify Sample.fileSigned
    [Sample.strangersWithdrawal 1, Sample.announcement] "photo" "alice" := by
  refine (onlyPublisherWithdraws_iff Sample.fileVerify_sound).mpr ?_
  intro t ht hforeign
  have hnewest := (isNewestRecord_iff _ t).mpr ht
  have hown : (Newest.newest FileRecord.later (verifiedOf Sample.fileVerify
      [Sample.strangersWithdrawal 1, Sample.announcement] "photo")).map
        (FileRecord.isForeign "alice") = some false := by decide +kernel
  rw [hnewest, Option.map_some, hforeign] at hown
  cases hown

end NeuronWeb
