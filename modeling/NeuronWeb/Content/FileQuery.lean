/-
  Content/FileQuery: what an archive serves of its file records (`selectFileRecords`,
  `tombstoneExpired` and `countLiveFiles` in `engine/content/file-index.ts`).

  A row that the guard lets through is kept with the record it is, so that nobody has to
  check it again.  A query is answered with one page, newest first.
-/
import NeuronWeb.Content.FileIndex

set_option autoImplicit false

namespace NeuronWeb

variable {F : Type} [JsNumber F]

/-! ## Rows -/

/-- A row that passes `isWellFormedFileRecord`, with the record it is. -/
structure FileRow (F : Type) [JsNumber F] where
  row : Json F
  record : FileRecord F
  wellFormed : isWellFormedFileRecord row = some record

/-- The guard, as a reader. -/
def FileRow.read (v : Json F) : Option (FileRow F) :=
  (isWellFormedFileRecord v).attach.map fun r => ⟨v, r.1, r.2⟩

theorem FileRow.read_eq_some_iff {v : Json F} {x : FileRow F} :
    FileRow.read v = some x ↔ x.row = v ∧ isWellFormedFileRecord v = some x.record := by
  unfold FileRow.read
  constructor
  · intro h
    obtain ⟨r, -, rfl⟩ := Option.map_eq_some_iff.mp h
    exact ⟨rfl, r.2⟩
  · rintro ⟨rfl, h⟩
    exact Option.map_eq_some_iff.mpr ⟨⟨x.record, h⟩, by simpa using h, rfl⟩

theorem FileRow.read_row (x : FileRow F) : FileRow.read x.row = some x :=
  FileRow.read_eq_some_iff.mpr ⟨rfl, x.wellFormed⟩

/-- The record of a row is newer than that of another. -/
def FileRow.later (x prev : FileRow F) : Bool := x.record.later prev.record

def FileRow.cid (x : FileRow F) : String := x.record.cid

theorem FileRow.later_ranking [OrderedJsNumber F] :
    Newest.Ranking (FileRow.later (F := F)) fun _ => True where
  asymm h := FileRecord.later_ranking.asymm h
  split hy h := FileRecord.later_ranking.split hy h
  real_left _ := trivial
  real_right _ := trivial

/-! ## Withdrawals that are old -/

/-- Twice `MAX_OFFLINE_MS`, as it stands when the module is loaded. -/
def TOMBSTONE_RETAIN_MS : Int := 2 * (3 * (4 * 60 * 60 * 1000))

/-- Is this withdrawal old enough that no live holder could still need it? -/
def tombstoneExpired (r : FileRecord F) (now : Int) : Bool :=
  r.isRemoved &&
    JsNumber.lt (JsNumber.ofInt TOMBSTONE_RETAIN_MS) (JsNumber.sub (JsNumber.ofInt now) r.timestamp)

/-! ## Queries -/

def FILE_QUERY_LIMIT_DEFAULT : Int := 50
def FILE_QUERY_LIMIT_MAX : Int := 200

structure FileQuery (F : Type) where
  /-- Exactly this CID. -/
  cid : Option String
  /-- Everything a given account published. -/
  owner : Option Hex
  /-- Return only withdrawals. -/
  withdrawn : Bool
  limit : Option F

namespace FileQuery

variable (query : FileQuery F)

/-- How many records a page has at most. -/
def pageLimit : Nat :=
  (JsNumber.toInt (JsNumber.min
    (JsNumber.max (JsNumber.ofInt 1)
      (JsNumber.floor (query.limit.getD (JsNumber.ofInt FILE_QUERY_LIMIT_DEFAULT))))
    (JsNumber.ofInt FILE_QUERY_LIMIT_MAX) : F)).toNat

/-- The record is one of those asked about. -/
def asksFor (x : FileRow F) : Bool :=
  (!truthy query.cid || query.cid == some x.record.cid) &&
    (!truthy query.owner || query.owner == some x.record.uploaderPub)

/-- The record, the newest of its CID, belongs on the page: a withdrawal when withdrawals are
asked for, else a live file, or whatever the CID asked about has. -/
def onPage (x : FileRow F) : Bool :=
  if query.withdrawn then x.record.isRemoved else !x.record.isRemoved || truthy query.cid

end FileQuery

/-- The newest of the records asked about, per CID. -/
def newestAsked (records : List (Json F)) (query : FileQuery F) : JsMap String (FileRow F) :=
  ((records.filterMap FileRow.read).filter query.asksFor).foldl
    (Newest.keepByKey FileRow.cid FileRow.later) JsMap.empty

/-- What an archive serves for a query, bounded and newest first. -/
def selectFileRecords (records : List (Json F)) (query : FileQuery F) : List (FileRow F) :=
  (((newestAsked records query).values.filter query.onPage).mergeSort fun a b =>
    !JsNumber.lt a.record.timestamp b.record.timestamp).take query.pageLimit

/-- Live files among these records: a withdrawn file is not a file. -/
def countLiveFiles (records : List (Json F)) : Nat :=
  ((newestAsked records ⟨none, none, false, none⟩).values.filter
    fun x => !x.record.isRemoved).length

/-! ## What a page has -/

section Page

variable {records : List (Json F)} {query : FileQuery F}

theorem get?_newestAsked (records : List (Json F)) (query : FileQuery F) (cid : String) :
    (newestAsked records query).get? cid =
      Newest.newest FileRow.later
        (((records.filterMap FileRow.read).filter query.asksFor).filter fun x => x.cid = cid) :=
  Newest.get?_foldl_keepByKey FileRow.cid _ cid

theorem mem_selectFileRecords {x : FileRow F} (h : x ∈ selectFileRecords records query) :
    x.row ∈ records ∧ query.onPage x = true := by
  have hsorted := List.mem_mergeSort.mp (List.mem_of_mem_take h)
  obtain ⟨hvalue, hpage⟩ := List.mem_filter.mp hsorted
  obtain ⟨⟨cid, x⟩, hentry, rfl⟩ := List.mem_map.mp hvalue
  have hget := (JsMap.get?_eq_some_iff _ _ _).mpr hentry
  rw [get?_newestAsked] at hget
  have hasked := (List.mem_filter.mp (List.mem_filter.mp (Newest.newest_mem hget)).1).1
  obtain ⟨v, hv, hread⟩ := List.mem_filterMap.mp hasked
  rw [(FileRow.read_eq_some_iff.mp hread).1]
  exact ⟨hv, hpage⟩

theorem mem_selectFileRecords_of_room {x : FileRow F}
    (hget : (newestAsked records query).get? x.cid = some x) (hpage : query.onPage x = true)
    (hroom : ((newestAsked records query).values.filter query.onPage).length ≤ query.pageLimit) :
    x ∈ selectFileRecords records query := by
  unfold selectFileRecords
  rw [List.take_of_length_le (by rw [List.length_mergeSort]; exact hroom), List.mem_mergeSort,
    List.mem_filter]
  exact ⟨List.mem_map.mpr ⟨_, (JsMap.get?_eq_some_iff _ _ _).mp hget, rfl⟩, hpage⟩

end Page

end NeuronWeb
