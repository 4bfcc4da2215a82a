/-
  Content/FileIndex: file records, which of them verify, and what a client makes of them
  (`engine/content/file-index.ts`).

  A record announces a file or withdraws it; an archive serves whatever rows it likes. A row is
  an arbitrary JSON value here. `isWellFormedFileRecord` is the type guard of the source: it
  answers with the record the row is, so that everything behind it works on records, whose
  timestamp is a finite number.
-/
import NeuronWeb.Core.Hash
import NeuronWeb.Foundation.Newest

set_option autoImplicit false

namespace NeuronWeb

variable {F : Type} [JsNumber F]

/-! ## Reading a row -/

namespace Json

/-- `v[key]`; `undefined` is `none`. -/
def property (v : Json F) (key : String) : Option (Json F) :=
  match v with
  | .obj fields => JsMap.find key fields
  | _ => none

/-- `typeof v === 'string'`. -/
def asString : Option (Json F) → Option String
  | some (.str s) => some s
  | _ => none

/-- `typeof v === 'number'`. -/
def asNumber : Option (Json F) → Option F
  | some (.int n) => some (JsNumber.ofInt n)
  | some (.num x) => some x
  | _ => none

/-- `typeof v === 'boolean'`. -/
def asBoolean : Option (Json F) → Option Bool
  | some (.bool b) => some b
  | _ => none

/-- A field that may be left out, and is checked when it is not. -/
def optional {α : Type} (read : Option (Json F) → Option α) :
    Option (Json F) → Option (Option α)
  | none => some none
  | some v => (read (some v)).map some

/-- `v ?? []`, as a loop runs over it; `none` when it cannot. -/
def iterated : Option (Json F) → Option (List (Json F))
  | none => some []
  | some .null => some []
  | some (.arr items) => some items
  | some (.str s) => some (s.toList.map fun c => .str (String.singleton c))
  | some _ => none

end Json

/-- `s.length`, in UTF-16 code units. -/
def utf16Length (s : String) : Nat :=
  (s.toList.map fun c => if c.toNat < 0x10000 then 1 else 2).sum

/-! ## Records -/

/-- A file announcement, or with `removed` a withdrawal. -/
structure FileRecord (F : Type) [JsNumber F] where
  cid : String
  sizeBytes : F
  mimeType : Option String
  timestamp : F
  uploaderPub : Hex
  signature : Hex
  removed : Option Bool
  timestamp_finite : JsNumber.isFinite timestamp = true

namespace FileRecord

/-- `!!r.removed`. -/
def isRemoved (r : FileRecord F) : Bool := r.removed.getD false

/-- `r.timestamp > prev.timestamp`. -/
def later (r prev : FileRecord F) : Bool := JsNumber.lt prev.timestamp r.timestamp

theorem later_ranking [OrderedJsNumber F] :
    Newest.Ranking (later (F := F)) fun _ => True where
  asymm h := OrderedJsNumber.lt_asymm _ _ h
  split {x y z} _ h := by
    have hy := OrderedJsNumber.same_of_finite _ y.timestamp_finite
    exact (OrderedJsNumber.lt_split x.timestamp y.timestamp z.timestamp hy h)
  real_left _ := trivial
  real_right _ := trivial

end FileRecord

/-- The exact string a file announcement signs. -/
def fileAnnouncePayload (r : FileRecord F) : String :=
  "file:" ++ r.cid ++ ":" ++ JsNumber.toText r.sizeBytes ++ ":" ++ r.uploaderPub ++ ":" ++
    JsNumber.toText r.timestamp

/-- The exact string a withdrawal signs. -/
def fileRemovePayload (cid : String) (ownerPub : Hex) (timestamp : F) : String :=
  "file-remove:" ++ cid ++ ":" ++ ownerPub ++ ":" ++ JsNumber.toText timestamp

/-- The payload a record claims to have signed, whichever kind it is. -/
def payloadFor (r : FileRecord F) : String :=
  if r.isRemoved then fileRemovePayload r.cid r.uploaderPub r.timestamp
  else fileAnnouncePayload r

/-- Everything checkable without crypto: the record a row is, when it is one. -/
def isWellFormedFileRecord (v : Json F) : Option (FileRecord F) := do
  let cid ← Json.asString (v.property "cid")
  guard (0 < utf16Length cid ∧ utf16Length cid ≤ 256)
  let uploaderPub ← Json.asString (v.property "uploaderPub")
  guard (uploaderPub ≠ "")
  let signature ← Json.asString (v.property "signature")
  guard (signature ≠ "")
  let timestamp ← Json.asNumber (v.property "timestamp")
  let sizeBytes ← Json.asNumber (v.property "sizeBytes")
  if timestamp_finite : JsNumber.isFinite timestamp = true then
    guard (JsNumber.le timestamp (JsNumber.ofInt 0) = false)
    guard (JsNumber.isFinite sizeBytes = true ∧ JsNumber.lt sizeBytes (JsNumber.ofInt 0) = false)
    let mimeType ← Json.optional Json.asString (v.property "mimeType")
    let removed ← Json.optional Json.asBoolean (v.property "removed")
    some { cid, sizeBytes, mimeType, timestamp, uploaderPub, signature, removed, timestamp_finite }
  else none

/-- `verify(payload, pub, signature)`. -/
abbrev RecordVerifier := String → Hex → Hex → Bool

/-- The record a row is, when its uploader signed exactly what it says. -/
def verifiedRecord (verify : RecordVerifier) (v : Json F) : Option (FileRecord F) :=
  match isWellFormedFileRecord v with
  | none => none
  | some r => if verify (payloadFor r) r.uploaderPub r.signature then some r else none

/-- The loop of `verifiedWithdrawals` and `foldFileRecords`: per CID the newest record that
verifies. -/
def newestVerified (verify : RecordVerifier) (records : List (Json F)) :
    JsMap String (FileRecord F) :=
  records.foldl
    (fun newest v =>
      match verifiedRecord verify v with
      | none => newest
      | some r => Newest.keepByKey FileRecord.cid FileRecord.later newest r)
    JsMap.empty

/-- CIDs whose newest verified record is a withdrawal. -/
def verifiedWithdrawals (verify : RecordVerifier) (records : List (Json F)) : JsSet String :=
  JsSet.addAll JsMap.empty
    ((newestVerified verify records).filter fun _ r => r.isRemoved).keys

/-- The verified files: withdrawn ones are removed. -/
def foldFileRecords (verify : RecordVerifier) (records : List (Json F)) :
    JsMap String (FileRecord F) :=
  (newestVerified verify records).filter fun _ r => !r.isRemoved

/-! ## What the loop keeps -/

/-- The verified records of a CID, in the order the rows come in. -/
def verifiedOf (verify : RecordVerifier) (records : List (Json F)) (cid : String) :
    List (FileRecord F) :=
  (records.filterMap (verifiedRecord verify)).filter fun r => r.cid = cid

/-- The first of the newest records. -/
def IsNewestRecord (rows : List (FileRecord F)) (r : FileRecord F) : Prop :=
  Newest.IsNewest FileRecord.later (fun _ => True) rows r

theorem isNewestRecord_iff [OrderedJsNumber F] (rows : List (FileRecord F)) (r : FileRecord F) :
    Newest.newest FileRecord.later rows = some r ↔ IsNewestRecord rows r :=
  Newest.newest_eq_some_iff FileRecord.later_ranking

theorem verifiedRecord_eq_some_iff {verify : RecordVerifier} {v : Json F} {r : FileRecord F} :
    verifiedRecord verify v = some r ↔ isWellFormedFileRecord v = some r ∧
      verify (payloadFor r) r.uploaderPub r.signature = true := by
  unfold verifiedRecord
  cases isWellFormedFileRecord v with
  | none => simp
  | some s =>
    dsimp only
    constructor
    · intro h
      split at h
      · rename_i hverify
        rw [← Option.some.inj h]
        exact ⟨rfl, hverify⟩
      · cases h
    · rintro ⟨hs, hverify⟩
      rw [Option.some.inj hs, if_pos hverify]

theorem fields_of_isWellFormed {v : Json F} {r : FileRecord F}
    (h : isWellFormedFileRecord v = some r) :
    Json.asString (v.property "cid") = some r.cid ∧
      Json.asNumber (v.property "timestamp") = some r.timestamp := by
  unfold isWellFormedFileRecord at h
  simp only [Option.bind_eq_bind, Option.bind_eq_some_iff] at h
  obtain ⟨cid, hcid, _, _, pub, _, _, _, sig, _, _, _, ts, hts, size, _, h⟩ := h
  split at h
  · simp only [Option.bind_eq_some_iff, Option.some.injEq] at h
    obtain ⟨_, _, _, _, mime, _, removed, _, rfl⟩ := h
    exact ⟨hcid, hts⟩
  · cases h

theorem mem_verifiedOf_iff {verify : RecordVerifier} {records : List (Json F)} {cid : String}
    {r : FileRecord F} : r ∈ verifiedOf verify records cid ↔
      (∃ v ∈ records, verifiedRecord verify v = some r) ∧ r.cid = cid := by
  rw [verifiedOf, List.mem_filter, List.mem_filterMap, decide_eq_true_iff]

section Loop

variable (verify : RecordVerifier) (records : List (Json F)) (cid : String)

theorem newestVerified_eq : newestVerified verify records =
    (records.filterMap (verifiedRecord verify)).foldl
      (Newest.keepByKey FileRecord.cid FileRecord.later) JsMap.empty := by
  rw [List.foldl_filterMap, newestVerified]
  congr 1
  funext newest v
  cases verifiedRecord verify v with
  | none => rfl
  | some r => rfl

theorem get?_newestVerified : (newestVerified verify records).get? cid =
    Newest.newest FileRecord.later (verifiedOf verify records cid) := by
  rw [newestVerified_eq, Newest.get?_foldl_keepByKey]
  rfl

theorem has_verifiedWithdrawals : (verifiedWithdrawals verify records).has cid = true ↔
    ∃ r, (newestVerified verify records).get? cid = some r ∧ r.isRemoved = true := by
  rw [verifiedWithdrawals, JsSet.has_addAll, JsMap.keys, List.mem_map]
  constructor
  · rintro (⟨⟨k, r⟩, hmem, rfl⟩ | hempty)
    · have hget := (JsMap.get?_eq_some_iff _ _ _).mpr hmem
      exact ⟨r, JsMap.get?_of_get?_filter hget⟩
    · cases hempty
  · rintro ⟨r, hget, hremoved⟩
    have hfiltered : ((newestVerified verify records).filter fun _ r => r.isRemoved).get? cid =
        some r := by
      rw [JsMap.get?_filter, hget]
      simp [hremoved]
    exact Or.inl ⟨(cid, r), (JsMap.get?_eq_some_iff _ _ _).mp hfiltered, rfl⟩

theorem withdrawn_iff [OrderedJsNumber F] :
    (verifiedWithdrawals verify records).has cid = true ↔
      ∃ r, IsNewestRecord (verifiedOf verify records cid) r ∧ r.isRemoved = true := by
  rw [has_verifiedWithdrawals, get?_newestVerified]
  constructor
  · rintro ⟨r, hr, hremoved⟩
    exact ⟨r, (isNewestRecord_iff _ r).mp hr, hremoved⟩
  · rintro ⟨r, hr, hremoved⟩
    exact ⟨r, (isNewestRecord_iff _ r).mpr hr, hremoved⟩

theorem listed_iff [OrderedJsNumber F] {r : FileRecord F} :
    (foldFileRecords verify records).get? cid = some r ↔
      IsNewestRecord (verifiedOf verify records cid) r ∧ r.isRemoved = false := by
  rw [foldFileRecords, JsMap.get?_filter, Option.filter_eq_some_iff, get?_newestVerified,
    isNewestRecord_iff, Bool.not_eq_true']

end Loop

end NeuronWeb
