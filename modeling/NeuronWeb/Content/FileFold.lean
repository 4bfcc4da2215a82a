/-
  Content/FileFold: folding the rows of several archives
  (`engine/content/file-index.ts`, `foldFileRecords` and `verifiedWithdrawals`).

  Archives answer in any order and repeat each other, so what a client makes of their rows
  should depend on which rows there are and on nothing else, and a row older than one that is
  there should add nothing. Both hold as long as the newest record of a CID is one.
-/
import NeuronWeb.Content.Withdrawals

set_option autoImplicit false

namespace NeuronWeb

variable {F : Type} [JsNumber F]

/-! ## A fold that forgets the order -/

/-- Both answers are the same for every CID: which record it is listed with, and whether it
is withdrawn. -/
structure SameFiles (verify : RecordVerifier) (rows rows' : List (Json F)) : Prop where
  listed : ∀ cid,
    (foldFileRecords verify rows').get? cid = (foldFileRecords verify rows).get? cid
  withdrawn : ∀ cid,
    (verifiedWithdrawals verify rows').has cid = (verifiedWithdrawals verify rows).has cid

/-- No verified record of the CID is later than this one. -/
def Unsurpassed (verify : RecordVerifier) (rows : List (Json F)) (cid : String)
    (r : FileRecord F) : Prop :=
  r ∈ verifiedOf verify rows cid ∧ ∀ x ∈ verifiedOf verify rows cid, x.later r = false

/-- What the folds of some rows are to be: they depend on which rows there are, an older
record adds nothing, and a newest record that is a withdrawal hides its file. -/
structure IsJoin (verify : RecordVerifier) (rows : List (Json F)) : Prop where
  /-- Permuted or repeated rows are the same rows. -/
  same_rows : ∀ rows', (∀ v, v ∈ rows' ↔ v ∈ rows) → SameFiles verify rows rows'
  older : ∀ front back v r s, rows = front ++ back → verifiedRecord verify v = some r →
    s ∈ verifiedOf verify rows r.cid → s.later r = true →
      SameFiles verify rows (front ++ v :: back)
  listed : ∀ cid, (foldFileRecords verify rows).has cid = true ↔
    (∃ r, Unsurpassed verify rows cid r) ∧
      ∀ r, Unsurpassed verify rows cid r → r.isRemoved = false
  withdrawn : ∀ cid, (verifiedWithdrawals verify rows).has cid = true ↔
    ∃ r, Unsurpassed verify rows cid r ∧ r.isRemoved = true

/-- The newest records of a CID are one record, or all of them withdraw it. -/
def NewestAgree (verify : RecordVerifier) (rows : List (Json F)) : Prop :=
  ∀ cid r s, Unsurpassed verify rows cid r → Unsurpassed verify rows cid s →
    r = s ∨ (r.isRemoved = true ∧ s.isRemoved = true)

section Folds

variable {verify : RecordVerifier} {rows rows' : List (Json F)} {cid : String}

/-! ## What the loop keeps is unsurpassed -/

theorem verifiedOf_append (front back : List (Json F)) :
    verifiedOf verify (front ++ back) cid =
      verifiedOf verify front cid ++ verifiedOf verify back cid := by
  rw [verifiedOf, List.filterMap_append, List.filter_append, verifiedOf, verifiedOf]

theorem verifiedOf_cons {v : Json F} {r : FileRecord F}
    (hv : verifiedRecord verify v = some r) : verifiedOf verify (v :: rows) cid =
      if r.cid = cid then r :: verifiedOf verify rows cid else verifiedOf verify rows cid := by
  rw [verifiedOf, List.filterMap_cons_some hv, List.filter_cons]
  simp only [decide_eq_true_eq]
  rfl

theorem mem_verifiedOf_congr (h : ∀ v, v ∈ rows' ↔ v ∈ rows) (r : FileRecord F) :
    r ∈ verifiedOf verify rows' cid ↔ r ∈ verifiedOf verify rows cid := by
  simp only [mem_verifiedOf_iff, h]

theorem unsurpassed_congr (h : ∀ v, v ∈ rows' ↔ v ∈ rows) (r : FileRecord F) :
    Unsurpassed verify rows' cid r ↔ Unsurpassed verify rows cid r := by
  simp only [Unsurpassed, mem_verifiedOf_congr h]

theorem sameFiles_of_newest
    (h : ∀ cid, (newestVerified verify rows').get? cid = (newestVerified verify rows).get? cid) :
    SameFiles verify rows rows' where
  listed cid := by rw [foldFileRecords, JsMap.get?_filter, h, foldFileRecords, JsMap.get?_filter]
  withdrawn cid := by
    rw [Bool.eq_iff_iff, has_verifiedWithdrawals, has_verifiedWithdrawals, h]

theorem has_foldFileRecords : (foldFileRecords verify rows).has cid = true ↔
    ∃ r, (newestVerified verify rows).get? cid = some r ∧ r.isRemoved = false := by
  rw [JsMap.has, foldFileRecords, JsMap.get?_filter, Option.isSome_iff_exists]
  simp only [Option.filter_eq_some_iff, Bool.not_eq_true']

theorem exists_get?_newestVerified {r : FileRecord F} (h : r ∈ verifiedOf verify rows cid) :
    ∃ n, (newestVerified verify rows).get? cid = some n := by
  rw [get?_newestVerified]
  exact Newest.exists_newest FileRecord.later (List.ne_nil_of_mem h)

theorem get?_newestVerified_cons {v : Json F} {r : FileRecord F}
    (hv : verifiedRecord verify v = some r) (hr : Unsurpassed verify rows cid r) :
    (newestVerified verify (v :: rows)).get? cid = some r := by
  have hcid : r.cid = cid := (mem_verifiedOf_iff.mp hr.1).2
  rw [get?_newestVerified, verifiedOf_cons hv, if_pos hcid]
  exact Newest.foldl_keep_of_kept hr.2

section Ordered

variable [OrderedJsNumber F]

theorem unsurpassed_of_get? {r : FileRecord F}
    (h : (newestVerified verify rows).get? cid = some r) : Unsurpassed verify rows cid r := by
  rw [get?_newestVerified] at h
  have hnewest := (isNewestRecord_iff _ r).mp h
  exact ⟨hnewest.mem, fun x hx => hnewest.not_later FileRecord.later_ranking hx⟩

/-! ## An older record -/

theorem get?_newestVerified_insert_older {front back : List (Json F)} {v : Json F}
    {r s : FileRecord F} (hv : verifiedRecord verify v = some r)
    (hs : s ∈ verifiedOf verify (front ++ back) r.cid) (hlater : s.later r = true) (cid : String) :
    (newestVerified verify (front ++ v :: back)).get? cid =
      (newestVerified verify (front ++ back)).get? cid := by
  rw [get?_newestVerified, get?_newestVerified, verifiedOf_append, verifiedOf_append,
    verifiedOf_cons hv]
  by_cases hcid : r.cid = cid
  · subst hcid
    rw [if_pos rfl]
    rw [verifiedOf_append] at hs
    obtain ⟨n, hn⟩ := Newest.exists_newest FileRecord.later (List.ne_nil_of_mem hs)
    have hnewest := (isNewestRecord_iff _ n).mp hn
    have hsn : s.later n = false := hnewest.not_later FileRecord.later_ranking hs
    have hnr : n.later r = true := by
      rcases FileRecord.later_ranking.split (y := n) trivial hlater with hnr | hsn'
      · exact hnr
      · rw [hsn] at hsn'
        cases hsn'
    rw [hn]
    exact (isNewestRecord_iff _ n).mpr
      (hnewest.insert_older FileRecord.later_ranking hnr)
  · rw [if_neg hcid]

/-! ## Newest records that agree -/

section

variable (hagree : NewestAgree verify rows)
include hagree

theorem NewestAgree.listed_iff {r : FileRecord F} :
    (foldFileRecords verify rows).get? cid = some r ↔
      Unsurpassed verify rows cid r ∧ r.isRemoved = false := by
  rw [foldFileRecords, JsMap.get?_filter, Option.filter_eq_some_iff, Bool.not_eq_true']
  constructor
  · rintro ⟨hr, hstands⟩
    exact ⟨unsurpassed_of_get? hr, hstands⟩
  · rintro ⟨hr, hstands⟩
    obtain ⟨n, hn⟩ := exists_get?_newestVerified hr.1
    rcases hagree cid r n hr (unsurpassed_of_get? hn) with rfl | ⟨hremoved, _⟩
    · exact ⟨hn, hstands⟩
    · rw [hstands] at hremoved
      cases hremoved

theorem NewestAgree.withdrawn_iff : (verifiedWithdrawals verify rows).has cid = true ↔
      ∃ r, Unsurpassed verify rows cid r ∧ r.isRemoved = true := by
  rw [has_verifiedWithdrawals]
  constructor
  · rintro ⟨r, hr, hremoved⟩
    exact ⟨r, unsurpassed_of_get? hr, hremoved⟩
  · rintro ⟨r, hr, hremoved⟩
    obtain ⟨n, hn⟩ := exists_get?_newestVerified hr.1
    rcases hagree cid r n hr (unsurpassed_of_get? hn) with rfl | ⟨_, hgone⟩
    · exact ⟨r, hn, hremoved⟩
    · exact ⟨n, hn, hgone⟩

theorem NewestAgree.sameFiles (hmem : ∀ v, v ∈ rows' ↔ v ∈ rows) : SameFiles verify rows rows' := by
  have hagree' : NewestAgree verify rows' := fun cid r s hr hs =>
    hagree cid r s ((unsurpassed_congr hmem r).mp hr) ((unsurpassed_congr hmem s).mp hs)
  constructor
  · intro cid
    ext r
    rw [hagree'.listed_iff, hagree.listed_iff, unsurpassed_congr hmem]
  · intro cid
    rw [Bool.eq_iff_iff, hagree'.withdrawn_iff, hagree.withdrawn_iff]
    simp only [unsurpassed_congr hmem]

theorem isJoin_of_agree : IsJoin verify rows where
  same_rows _ hmem := hagree.sameFiles hmem
  older front back v r s hrows hv hs hlater := by
    subst hrows
    exact sameFiles_of_newest (get?_newestVerified_insert_older hv hs hlater)
  listed cid := by
    rw [has_foldFileRecords]
    constructor
    · rintro ⟨n, hn, hstands⟩
      have hnewest := unsurpassed_of_get? hn
      refine ⟨⟨n, hnewest⟩, ?_⟩
      intro r hr
      rcases hagree cid r n hr hnewest with rfl | ⟨_, hgone⟩
      · exact hstands
      · rw [hstands] at hgone
        cases hgone
    · rintro ⟨⟨r, hr⟩, hstands⟩
      obtain ⟨n, hn⟩ := exists_get?_newestVerified hr.1
      exact ⟨n, hn, hstands n (unsurpassed_of_get? hn)⟩
  withdrawn _ := hagree.withdrawn_iff

end

end Ordered

/-! ## Records that do not agree -/

omit [JsNumber F] in
theorem mem_cons_row {v : Json F} (hv : v ∈ rows) (w : Json F) : w ∈ v :: rows ↔ w ∈ rows := by
  constructor
  · intro hw
    rcases List.mem_cons.mp hw with rfl | hw
    · exact hv
    · exact hw
  · exact List.mem_cons_of_mem v

theorem answers_of_unsurpassed (hsame : ∀ rows', (∀ v, v ∈ rows' ↔ v ∈ rows) →
    SameFiles verify rows rows') {r : FileRecord F} (hr : Unsurpassed verify rows cid r) :
    (foldFileRecords verify rows).get? cid = (some r).filter (fun r => !r.isRemoved) ∧
      (verifiedWithdrawals verify rows).has cid = r.isRemoved := by
  obtain ⟨⟨v, hmem, hv⟩, _⟩ := mem_verifiedOf_iff.mp hr.1
  have hfiles := hsame (v :: rows) (mem_cons_row hmem)
  have hkept := get?_newestVerified_cons hv hr
  constructor
  · rw [← hfiles.listed, foldFileRecords, JsMap.get?_filter, hkept]
  · rw [← hfiles.withdrawn, Bool.eq_iff_iff, has_verifiedWithdrawals, hkept]
    simp

theorem agree_of_same_rows (hsame : ∀ rows', (∀ v, v ∈ rows' ↔ v ∈ rows) →
    SameFiles verify rows rows') : NewestAgree verify rows := by
  intro cid r s hr hs
  obtain ⟨hlistedr, hgoner⟩ := answers_of_unsurpassed hsame hr
  obtain ⟨hlisteds, hgones⟩ := answers_of_unsurpassed hsame hs
  cases hremoved : r.isRemoved with
  | true => exact Or.inr ⟨rfl, by rw [← hgones, hgoner, hremoved]⟩
  | false =>
    have hstands : s.isRemoved = false := by rw [← hgones, hgoner, hremoved]
    rw [hlistedr] at hlisteds
    simp only [Option.filter_some, hremoved, hstands, Bool.not_false, if_true,
      Option.some.injEq] at hlisteds
    exact Or.inl hlisteds

/-- The folds are a join exactly when the newest records of every CID agree. -/
theorem isJoin_iff_newestAgree [OrderedJsNumber F] (verify : RecordVerifier)
    (rows : List (Json F)) :
    IsJoin verify rows ↔ NewestAgree verify rows :=
  ⟨fun h => agree_of_same_rows h.same_rows, isJoin_of_agree⟩

end Folds

/-! ## One timestamp -/

namespace Sample

/-- Alice announced the file at 2 and withdrew it in the same millisecond. -/
def sameMomentSigned (pub payload : String) : Prop :=
  (pub, payload) ∈ [("alice", "file:photo:5/1:alice:2/1"),
    ("alice", "file-remove:photo:alice:2/1")]

instance (pub payload : String) : Decidable (sameMomentSigned pub payload) :=
  inferInstanceAs (Decidable (_ ∈ _))

def sameMomentVerify : RecordVerifier := fun payload pub signature =>
  signature == "sig of " ++ pub && sameMomentSigned pub payload

def ownWithdrawal : Json Rat := fileRow "photo" "alice" "sig of alice" 2 true

end Sample

/-- An archive that names the announcement first revives the file it withdrew. -/
theorem withdrawn_file_revived : ¬ ∀ (verify : RecordVerifier)
    (signed : Hex → String → Prop) (rows : List (Json Rat)),
    (∀ payload pub signature, verify payload pub signature = true → signed pub payload) →
    IsJoin verify rows := by
  intro hall
  have hsound : ∀ payload pub signature,
      Sample.sameMomentVerify payload pub signature = true →
        Sample.sameMomentSigned pub payload :=
    fun payload pub signature h => of_decide_eq_true (Bool.and_eq_true_iff.mp h).2
  have hjoin := hall Sample.sameMomentVerify Sample.sameMomentSigned
    [Sample.announcement, Sample.ownWithdrawal] hsound
  have hfiles := hjoin.same_rows [Sample.ownWithdrawal, Sample.announcement]
    fun v => List.Perm.mem_iff (List.Perm.swap _ _ _)
  have hput := hfiles.withdrawn "photo"
  have hfirst : (verifiedWithdrawals Sample.sameMomentVerify
      [Sample.announcement, Sample.ownWithdrawal]).has "photo" = false := by decide +kernel
  have hlast : (verifiedWithdrawals Sample.sameMomentVerify
      [Sample.ownWithdrawal, Sample.announcement]).has "photo" = true := by decide +kernel
  rw [hfirst, hlast] at hput
  cases hput

/-- With the withdrawal dated later, the folds are a join. -/
theorem isJoin_of_later_withdrawal :
    IsJoin Sample.fileVerify [Sample.announcement, Sample.strangersWithdrawal 3] := by
  refine (isJoin_iff_newestAgree _ _).mpr ?_
  have hlast : ∀ cid r, Unsurpassed Sample.fileVerify
      [Sample.announcement, Sample.strangersWithdrawal 3] cid r →
      verifiedRecord Sample.fileVerify (Sample.strangersWithdrawal 3) = some r := by
    rintro cid r ⟨hmem, hlater⟩
    obtain ⟨⟨v, hv, hread⟩, rfl⟩ := mem_verifiedOf_iff.mp hmem
    rcases List.mem_cons.mp hv with rfl | hv
    · obtain ⟨s, hs⟩ : ∃ s, verifiedRecord Sample.fileVerify
          (Sample.strangersWithdrawal 3) = some s :=
        Option.isSome_iff_exists.mp (by decide +kernel)
      have hpair : (verifiedRecord Sample.fileVerify Sample.announcement).bind (fun r =>
          (verifiedRecord Sample.fileVerify (Sample.strangersWithdrawal 3)).map fun s =>
            (decide (s.cid = r.cid), s.later r)) = some (true, true) := by decide +kernel
      rw [hread, hs, Option.bind_some, Option.map_some, Option.some.injEq, Prod.mk.injEq,
        decide_eq_true_eq] at hpair
      obtain ⟨hcid, hsr⟩ := hpair
      have hbehind : s ∈ verifiedOf Sample.fileVerify
          [Sample.announcement, Sample.strangersWithdrawal 3] r.cid :=
        mem_verifiedOf_iff.mpr ⟨⟨Sample.strangersWithdrawal 3, by simp, hs⟩, hcid⟩
      rw [hlater s hbehind] at hsr
      cases hsr
    · rw [← List.mem_singleton.mp hv]
      exact hread
  intro cid r s hr hs
  exact Or.inl (Option.some.inj ((hlast cid r hr).symm.trans (hlast cid s hs)))

end NeuronWeb
