/-
  Network/FileLookup: asking several archives for file records (`fetchFileRecords` in
  `network/account-resolver.ts`, `lookupFiles` in `network/node.ts`).

  The answers are merged first, newest row per CID, and verified afterwards. A row is compared
  by `Number(rec.timestamp)` before anything about it has been checked, so a row that verifies
  can lose to one that does not.
-/
import NeuronWeb.Content.FileIndex

set_option autoImplicit false

namespace NeuronWeb

variable {F : Type} [JsNumber F]

/-! ## `Number(v)` -/

namespace Json

mutual

/-- `String(v)`; `none` when it throws, as it does on an object that brings a `toString` of
its own, which is no function. -/
def toText : Json F → Option String
  | .null => some "null"
  | .bool b => some (if b then "true" else "false")
  | .int n => some (JsNumber.toText (JsNumber.ofInt n : F))
  | .num x => some (JsNumber.toText x)
  | .str s => some s
  | .arr items => (itemTexts items).map (String.intercalate ",")
  | .obj fields => if (JsMap.find "toString" fields).isSome then none else some "[object Object]"

/-- The items as `join` writes them: nothing for `null`. -/
def itemTexts : List (Json F) → Option (List String)
  | [] => some []
  | .null :: rest => (itemTexts rest).map ("" :: ·)
  | v :: rest =>
    match toText v, itemTexts rest with
    | some s, some texts => some (s :: texts)
    | _, _ => none

end

/-- `Number(v)`, with `parse` for the number a string stands for; `none` when it throws. -/
def toNumber (parse : String → F) : Option (Json F) → Option F
  | none => some (JsNumber.div (JsNumber.ofInt 0) (JsNumber.ofInt 0))
  | some .null => some (JsNumber.ofInt 0)
  | some (.bool b) => some (JsNumber.ofInt (if b then 1 else 0))
  | some (.int n) => some (JsNumber.ofInt n)
  | some (.num x) => some x
  | some v => (toText v).map parse

theorem toNumber_of_asNumber {parse : String → F} {v : Option (Json F)} {x : F}
    (h : asNumber v = some x) : toNumber parse v = some x := by
  match v, h with
  | some (.int n), h => exact h
  | some (.num y), h => exact h

end Json

/-! ## The merge -/

/-- `rec.cid`, when it is a string. -/
def rowCid (v : Json F) : Option String := Json.asString (v.property "cid")

/-- `Number(rec.timestamp)`. -/
def rowStamp (parse : String → F) (v : Json F) : Option F :=
  Json.toNumber parse (v.property "timestamp")

/-- One row of an answer: it replaces the row kept for its CID when it is newer. -/
def mergeRow (parse : String → F) (byCid : JsMap String (Json F)) (rec : Json F) :
    Option (JsMap String (Json F)) :=
  match rowCid rec with
  | none => some byCid
  | some cid =>
    match byCid.get? cid with
    | none => some (byCid.set cid rec)
    | some prev =>
      match rowStamp parse rec, rowStamp parse prev with
      | some x, some y => some (if JsNumber.lt y x then byCid.set cid rec else byCid)
      | _, _ => none

/-- `r.value?.records ?? []`, as a loop runs over it; `none` when it cannot. -/
def answerRows (body : Json F) : Option (List (Json F)) :=
  Json.iterated (body.property "records")

/-- What the merge has collected. -/
structure FileUnion (F : Type) where
  byCid : JsMap String (Json F)
  archiveTotals : List F

/-- One settled request: a rejected one adds nothing. -/
def mergeAnswer (parse : String → F) (u : FileUnion F) : Option (Json F) → Option (FileUnion F)
  | none => some u
  | some body =>
    let archiveTotals := u.archiveTotals ++ (Json.asNumber (body.property "total")).toList
    match answerRows body with
    | none => none
    | some rows => (rows.foldlM (mergeRow parse) u.byCid).map (⟨·, archiveTotals⟩)

/-- The rows returned and the archives' totals; `none` when the merge throws. -/
def fetchFileRecords (parse : String → F) (results : List (Option (Json F))) :
    Option (List (Json F) × List F) :=
  (results.foldlM (mergeAnswer parse) ⟨JsMap.empty, []⟩).map
    fun u => (u.byCid.values, u.archiveTotals)

/-- The verified files a lookup finds; none when the merge throws. -/
def lookupFiles (parse : String → F) (verify : RecordVerifier)
    (results : List (Option (Json F))) : List (FileRecord F) × List F :=
  match fetchFileRecords parse results with
  | none => ([], [])
  | some (records, archiveTotals) => ((foldFileRecords verify records).values, archiveTotals)

/-! ## What is served, and when all of it counts -/

/-- All rows of all answers. -/
def servedRows (results : List (Option (Json F))) : List (Json F) :=
  results.flatMap fun r => (r.bind answerRows).getD []

/-- The rows that name a CID. -/
def rowsOf (rows : List (Json F)) (cid : String) : List (Json F) :=
  rows.filter fun v => rowCid v = some cid

/-- The comparison of the merge. -/
def laterRow (parse : String → F) (rec prev : Json F) : Bool :=
  match rowStamp parse rec, rowStamp parse prev with
  | some x, some y => JsNumber.lt y x
  | _, _ => false

/-- The row's timestamp compares: it is not NaN. -/
def realRow (parse : String → F) (v : Json F) : Prop :=
  ∃ x, rowStamp parse v = some x ∧ JsNumber.same x x = true

/-- The lookup finds what verifying all rows of all answers finds. -/
def UnionComplete (parse : String → F) (verify : RecordVerifier)
    (results : List (Option (Json F))) : Prop :=
  ∃ records archiveTotals, fetchFileRecords parse results = some (records, archiveTotals) ∧
    ∀ cid, (foldFileRecords verify records).get? cid =
      (foldFileRecords verify (servedRows results)).get? cid

/-- Nothing in the answers makes the merge throw, and no row stands in front of a file. -/
structure NothingHidden (parse : String → F) (verify : RecordVerifier)
    (results : List (Option (Json F))) : Prop where
  /-- The records of every answer can be iterated. -/
  iterable : ∀ body, some body ∈ results → (answerRows body).isSome = true
  /-- Where a CID has several rows, their timestamps can be converted. -/
  convertible : ∀ cid, (rowsOf (servedRows results) cid).length ≤ 1 ∨
    ∀ v ∈ rowsOf (servedRows results) cid, (rowStamp parse v).isSome = true
  /-- Where the newest verified record of a CID announces the file, it is the first of the
  newest among ALL rows of the CID, those that do not verify included. -/
  shown : ∀ cid r, IsNewestRecord (verifiedOf verify (servedRows results) cid) r →
    r.isRemoved = false → ∃ v,
      Newest.IsNewest (laterRow parse) (realRow parse) (rowsOf (servedRows results) cid) v ∧
        verifiedRecord verify v = some r

/-! ## The merge of a list of rows -/

section Merge

variable {parse : String → F}

theorem laterRow_ranking [OrderedJsNumber F] :
    Newest.Ranking (laterRow parse) (realRow parse) := by
  have hread : ∀ {v w : Json F}, laterRow parse v w = true →
      ∃ x y, rowStamp parse v = some x ∧ rowStamp parse w = some y ∧ JsNumber.lt y x = true := by
    intro v w h
    unfold laterRow at h
    split at h
    case h_1 x y hx hy => exact ⟨x, y, hx, hy, h⟩
    case h_2 => cases h
  refine ⟨?_, ?_, ?_, ?_⟩
  · intro v w h
    obtain ⟨x, y, hx, hy, hlt⟩ := hread h
    simp only [laterRow, hx, hy]
    exact OrderedJsNumber.lt_asymm y x hlt
  · intro v w u hreal h
    obtain ⟨z, x, hz, hx, hlt⟩ := hread h
    obtain ⟨y, hy, hsame⟩ := hreal
    simp only [laterRow, hx, hy, hz]
    exact OrderedJsNumber.lt_split x y z hsame hlt
  · intro v w h
    obtain ⟨x, y, hx, _, hlt⟩ := hread h
    exact ⟨x, hx, (OrderedJsNumber.same_of_lt y x hlt).2⟩
  · intro v w h
    obtain ⟨x, y, _, hy, hlt⟩ := hread h
    exact ⟨y, hy, (OrderedJsNumber.same_of_lt y x hlt).1⟩

/-- Rows that can be compared with each other, as far as they have to be. -/
def Comparable (parse : String → F) (rows : List (Json F)) : Prop :=
  rows.length ≤ 1 ∨ ∀ v ∈ rows, (rowStamp parse v).isSome = true

theorem Comparable.of_concat {rows : List (Json F)} {v : Json F}
    (h : Comparable parse (rows ++ [v])) : Comparable parse rows := by
  rcases h with hshort | hall
  · left
    rw [List.length_append] at hshort
    omega
  · exact Or.inr fun w hw => hall w (List.mem_append_left _ hw)

theorem comparable_concat {rows : List (Json F)} {v prev : Json F} (h : Comparable parse rows)
    (hprev : prev ∈ rows) : Comparable parse (rows ++ [v]) ↔
      (rowStamp parse v).isSome = true ∧ (rowStamp parse prev).isSome = true := by
  constructor
  · rintro (hshort | hall)
    · have hpos := List.length_pos_of_mem hprev
      rw [List.length_append, List.length_singleton] at hshort
      omega
    · exact ⟨hall v (by simp), hall prev (List.mem_append_left _ hprev)⟩
  · rintro ⟨hv, hp⟩
    right
    intro w hw
    rcases List.mem_append.mp hw with hw | hw
    · rcases h with hshort | hall
      · have hsingle : rows = [prev] := by
          match rows, hprev, hshort with
          | [x], hprev, _ => rw [List.mem_singleton.mp hprev]
        rw [hsingle, List.mem_singleton] at hw
        rw [hw]
        exact hp
      · exact hall w hw
    · rw [List.mem_singleton.mp hw]
      exact hv

variable {m : JsMap String (Json F)}

theorem mergeRow_of_prev {v prev : Json F} {cid : String}
    (hcid : rowCid v = some cid) (hprev : m.get? cid = some prev) (m' : JsMap String (Json F)) :
    mergeRow parse m v = some m' ↔
      ((rowStamp parse v).isSome = true ∧ (rowStamp parse prev).isSome = true) ∧
        m' = if laterRow parse v prev then m.set cid v else m := by
  cases hx : rowStamp parse v with
  | none => simp [mergeRow, hcid, hprev, hx]
  | some x =>
    cases hy : rowStamp parse prev with
    | none => simp [mergeRow, hcid, hprev, hx, hy]
    | some y =>
      have hstep : mergeRow parse m v =
          some (if laterRow parse v prev then m.set cid v else m) := by
        simp [mergeRow, hcid, hprev, laterRow, hx, hy]
      rw [hstep, Option.some.injEq, eq_comm]
      simp

theorem mergeRow_of_fresh {v : Json F} {cid : String}
    (hcid : rowCid v = some cid) (hfresh : m.get? cid = none) :
    mergeRow parse m v = some (m.set cid v) := by
  simp only [mergeRow, hcid, hfresh]

theorem mergeRow_of_nameless {v : Json F} (hcid : rowCid v = none) :
    mergeRow parse m v = some m := by
  simp only [mergeRow, hcid]

theorem get?_mergeRow {m m' : JsMap String (Json F)} {v : Json F}
    (h : mergeRow parse m v = some m') (cid : String) :
    m'.get? cid =
      if rowCid v = some cid then Newest.keep (laterRow parse) (m.get? cid) v
      else m.get? cid := by
  cases hrow : rowCid v with
  | none =>
    rw [mergeRow_of_nameless hrow] at h
    rw [← Option.some.inj h, if_neg (by simp)]
  | some k =>
    have hset : (m.set k v).get? cid = if k = cid then some v else m.get? cid :=
      JsMap.get?_set m k v cid
    have hk : (some k = some cid) ↔ k = cid := by simp
    simp only [hk]
    cases hprev : m.get? k with
    | none =>
      rw [mergeRow_of_fresh hrow hprev] at h
      rw [← Option.some.inj h, hset]
      split
      case isTrue heq =>
        rw [← heq, hprev]
        rfl
      case isFalse => rfl
    | some prev =>
      rw [((mergeRow_of_prev hrow hprev m').mp h).2]
      split
      case isTrue hlater =>
        rw [hset]
        split
        case isTrue heq => rw [← heq, hprev, Newest.keep, if_pos hlater]
        case isFalse => rfl
      case isFalse hlater =>
        split
        case isTrue heq => rw [← heq, hprev, Newest.keep, if_neg hlater]
        case isFalse => rfl

theorem isSome_mergeRow (m : JsMap String (Json F)) (v : Json F) :
    (∃ m', mergeRow parse m v = some m') ↔ ∀ cid prev, rowCid v = some cid →
      m.get? cid = some prev →
        (rowStamp parse v).isSome = true ∧ (rowStamp parse prev).isSome = true := by
  constructor
  · rintro ⟨m', h⟩ cid prev hcid hprev
    exact ((mergeRow_of_prev hcid hprev m').mp h).1
  · intro h
    cases hrow : rowCid v with
    | none => exact ⟨m, mergeRow_of_nameless hrow⟩
    | some k =>
      cases hprev : m.get? k with
      | none => exact ⟨m.set k v, mergeRow_of_fresh hrow hprev⟩
      | some prev =>
        exact ⟨_, (mergeRow_of_prev hrow hprev _).mpr ⟨h k prev hrow hprev, rfl⟩⟩

theorem foldlM_concat {σ α : Type} (f : σ → α → Option σ) (s : σ) (l : List α) (a : α) :
    (l ++ [a]).foldlM f s = (l.foldlM f s).bind fun s' => f s' a := by
  rw [List.foldlM_append]
  simp

theorem get?_mergeRows {rows : List (Json F)} {m : JsMap String (Json F)}
    (h : rows.foldlM (mergeRow parse) JsMap.empty = some m) (cid : String) :
    m.get? cid = Newest.newest (laterRow parse) (rowsOf rows cid) := by
  induction rows using List.reverseRecOn generalizing m with
  | nil =>
    rw [← Option.some.inj h]
    rfl
  | append_singleton rows v ih =>
    rw [foldlM_concat, Option.bind_eq_some_iff] at h
    obtain ⟨m₀, hm₀, hv⟩ := h
    rw [get?_mergeRow hv, ih hm₀, rowsOf, rowsOf, List.filter_append]
    by_cases hcid : rowCid v = some cid
    · simp [hcid]
    · simp [hcid]

/-- The merge goes through exactly when the rows of each CID can be compared. -/
theorem mergeRows_iff {rows : List (Json F)} :
    (∃ m, rows.foldlM (mergeRow parse) JsMap.empty = some m) ↔
      ∀ cid, Comparable parse (rowsOf rows cid) := by
  induction rows using List.reverseRecOn with
  | nil => simp [Comparable, rowsOf]
  | append_singleton rows v ih =>
    have hsplit : ∀ cid, rowsOf (rows ++ [v]) cid =
        rowsOf rows cid ++ if rowCid v = some cid then [v] else [] := by
      intro cid
      rw [rowsOf, List.filter_append, rowsOf]
      by_cases hcid : rowCid v = some cid
      · simp [hcid]
      · simp [hcid]
    constructor
    · rintro ⟨m, hm⟩ cid
      rw [foldlM_concat, Option.bind_eq_some_iff] at hm
      obtain ⟨m₀, hm₀, hv⟩ := hm
      have hbefore := ih.mp ⟨m₀, hm₀⟩ cid
      rw [hsplit]
      by_cases hcid : rowCid v = some cid
      · rw [if_pos hcid]
        by_cases hnil : rowsOf rows cid = []
        · rw [hnil]
          exact Or.inl (by simp)
        · obtain ⟨prev, hprev⟩ := Newest.exists_newest (laterRow parse) hnil
          have hget := (get?_mergeRows hm₀ cid).trans hprev
          have hmem := Newest.newest_mem hprev
          exact (comparable_concat hbefore hmem).mpr
            ((isSome_mergeRow m₀ v).mp ⟨m, hv⟩ cid prev hcid hget)
      · rw [if_neg hcid, List.append_nil]
        exact hbefore
    · intro h
      have hbefore : ∀ cid, Comparable parse (rowsOf rows cid) := by
        intro cid
        have hcid := h cid
        rw [hsplit] at hcid
        split at hcid
        · exact hcid.of_concat
        · rwa [List.append_nil] at hcid
      obtain ⟨m₀, hm₀⟩ := ih.mpr hbefore
      have hstep : ∃ m', mergeRow parse m₀ v = some m' := by
        refine (isSome_mergeRow m₀ v).mpr ?_
        intro cid prev hcid hget
        have hlast := h cid
        rw [hsplit, if_pos hcid] at hlast
        rw [get?_mergeRows hm₀ cid] at hget
        exact (comparable_concat (hbefore cid) (Newest.newest_mem hget)).mp hlast
      obtain ⟨m', hm'⟩ := hstep
      exact ⟨m', by rw [foldlM_concat, hm₀]; exact hm'⟩

theorem mergeAnswer_eq_some_iff {body : Json F} {u : FileUnion F} {m : JsMap String (Json F)} :
    (∃ u', mergeAnswer parse u (some body) = some u' ∧ u'.byCid = m) ↔
      ∃ rows, answerRows body = some rows ∧ rows.foldlM (mergeRow parse) u.byCid = some m := by
  cases hrows : answerRows body with
  | none => simp [mergeAnswer, hrows]
  | some rows => simp [mergeAnswer, hrows]

/-- The answers are merged as one list of rows, when all of them can be iterated. -/
theorem mergeAnswers_iff (results : List (Option (Json F))) (u : FileUnion F)
    (m : JsMap String (Json F)) :
    (∃ u', results.foldlM (mergeAnswer parse) u = some u' ∧ u'.byCid = m) ↔
      (∀ body, some body ∈ results → (answerRows body).isSome = true) ∧
        (servedRows results).foldlM (mergeRow parse) u.byCid = some m := by
  induction results generalizing u with
  | nil => simp [servedRows]
  | cons r results ih =>
    have hrest : (∃ u', (r :: results).foldlM (mergeAnswer parse) u = some u' ∧ u'.byCid = m) ↔
        ∃ u₁, mergeAnswer parse u r = some u₁ ∧
          ∃ u', results.foldlM (mergeAnswer parse) u₁ = some u' ∧ u'.byCid = m := by
      simp only [List.foldlM_cons, Option.bind_eq_bind, Option.bind_eq_some_iff]
      grind
    rw [hrest]
    simp only [ih]
    cases r with
    | none =>
      have hrows : servedRows (none :: results) = servedRows results := rfl
      simp [mergeAnswer, hrows]
    | some body =>
      have hrows : servedRows (some body :: results) =
          (answerRows body).getD [] ++ servedRows results := rfl
      rw [hrows, List.foldlM_append]
      constructor
      · rintro ⟨u₁, hu₁, hall, hm⟩
        obtain ⟨rows, hanswer, hfold⟩ := mergeAnswer_eq_some_iff.mp ⟨u₁, hu₁, rfl⟩
        refine ⟨?_, ?_⟩
        · intro b hb
          rcases List.mem_cons.mp hb with heq | hb
          · rw [Option.some.inj heq, hanswer]
            rfl
          · exact hall b hb
        · rw [hanswer, Option.getD_some, hfold]
          exact hm
      · rintro ⟨hall, hm⟩
        obtain ⟨rows, hanswer⟩ :=
          Option.isSome_iff_exists.mp (hall body List.mem_cons_self)
        rw [hanswer, Option.getD_some, Option.bind_eq_bind, Option.bind_eq_some_iff] at hm
        obtain ⟨m₁, hm₁, hm⟩ := hm
        obtain ⟨u₁, hu₁, hbyCid⟩ := mergeAnswer_eq_some_iff.mpr ⟨rows, hanswer, hm₁⟩
        exact ⟨u₁, hu₁, fun b hb => hall b (List.mem_cons_of_mem _ hb), hbyCid ▸ hm⟩

end Merge

/-! ## The lookup against all rows -/

section Lookup

variable {parse : String → F} {verify : RecordVerifier} {results : List (Option (Json F))}

theorem rowCid_of_verified {v : Json F} {r : FileRecord F} (h : verifiedRecord verify v = some r) :
    rowCid v = some r.cid :=
  (fields_of_isWellFormed (verifiedRecord_eq_some_iff.mp h).1).1

theorem rowStamp_of_verified {v : Json F} {r : FileRecord F}
    (h : verifiedRecord verify v = some r) : rowStamp parse v = some r.timestamp :=
  Json.toNumber_of_asNumber (fields_of_isWellFormed (verifiedRecord_eq_some_iff.mp h).1).2

theorem verifiedOf_eq (rows : List (Json F)) (cid : String) :
    verifiedOf verify rows cid = (rowsOf rows cid).filterMap (verifiedRecord verify) := by
  unfold verifiedOf rowsOf
  induction rows with
  | nil => rfl
  | cons v rows ih =>
    cases hv : verifiedRecord verify v with
    | none =>
      rw [List.filterMap_cons_none hv, ih]
      by_cases hcid : rowCid v = some cid
      · rw [List.filter_cons_of_pos (by simp [hcid]), List.filterMap_cons_none hv]
      · rw [List.filter_cons_of_neg (by simp [hcid])]
    | some r =>
      rw [List.filterMap_cons_some hv]
      by_cases hcid : r.cid = cid
      · have hrow : rowCid v = some cid := hcid ▸ rowCid_of_verified hv
        rw [List.filter_cons_of_pos (by simp [hcid]), ih,
          List.filter_cons_of_pos (by simp [hrow]), List.filterMap_cons_some hv]
      · have hrow : rowCid v ≠ some cid := by
          rw [rowCid_of_verified hv]
          simpa using hcid
        rw [List.filter_cons_of_neg (by simp [hcid]), ih,
          List.filter_cons_of_neg (by simp [hrow])]

theorem mem_verifiedOf_values {m : JsMap String (Json F)}
    (hkeys : ∀ cid v, m.get? cid = some v → rowCid v = some cid) (cid : String)
    (r : FileRecord F) :
    r ∈ verifiedOf verify m.values cid ↔
      ∃ v, m.get? cid = some v ∧ verifiedRecord verify v = some r := by
  rw [mem_verifiedOf_iff]
  constructor
  · rintro ⟨⟨v, hv, hverified⟩, rfl⟩
    obtain ⟨⟨k, w⟩, hmem, rfl⟩ := List.mem_map.mp hv
    have hget : m.get? k = some w := (JsMap.get?_eq_some_iff m k w).mpr hmem
    have hk : some k = some r.cid := (hkeys k w hget).symm.trans (rowCid_of_verified hverified)
    rw [Option.some.inj hk] at hget
    exact ⟨w, hget, hverified⟩
  · rintro ⟨v, hget, hverified⟩
    have hcid : some r.cid = some cid :=
      (rowCid_of_verified hverified).symm.trans (hkeys cid v hget)
    have hmem : (cid, v) ∈ m.entries := (JsMap.get?_eq_some_iff m cid v).mp hget
    exact ⟨⟨v, List.mem_map.mpr ⟨_, hmem, rfl⟩, hverified⟩, Option.some.inj hcid⟩

variable [OrderedJsNumber F]

variable {m : JsMap String (Json F)}

theorem isNewestRecord_values_iff
    (hkeys : ∀ cid v, m.get? cid = some v → rowCid v = some cid) {cid : String}
    {r : FileRecord F} :
    IsNewestRecord (verifiedOf verify m.values cid) r ↔
      ∃ v, m.get? cid = some v ∧ verifiedRecord verify v = some r := by
  constructor
  · intro h
    exact (mem_verifiedOf_values hkeys cid r).mp (Newest.IsNewest.mem h)
  · intro h
    refine Newest.isNewest_of_forall_eq FileRecord.later_ranking
      ((mem_verifiedOf_values hkeys cid r).mpr h) ?_
    intro x hx
    obtain ⟨v, hget, hverified⟩ := h
    obtain ⟨w, hget', hverified'⟩ := (mem_verifiedOf_values hkeys cid x).mp hx
    rw [hget] at hget'
    rw [← Option.some.inj hget', hverified] at hverified'
    exact (Option.some.inj hverified').symm

theorem listed_values_iff
    (hkeys : ∀ cid v, m.get? cid = some v → rowCid v = some cid) {cid : String}
    {r : FileRecord F} : (foldFileRecords verify m.values).get? cid = some r ↔
      (∃ v, m.get? cid = some v ∧ verifiedRecord verify v = some r) ∧ r.isRemoved = false := by
  rw [listed_iff, isNewestRecord_values_iff hkeys]

theorem get?_merged_iff {rows : List (Json F)}
    (hm : rows.foldlM (mergeRow parse) JsMap.empty = some m) (cid : String) (v : Json F) :
    m.get? cid = some v ↔
      Newest.IsNewest (laterRow parse) (realRow parse) (rowsOf rows cid) v := by
  rw [get?_mergeRows hm cid, Newest.newest_eq_some_iff laterRow_ranking]

theorem rowCid_of_merged {rows : List (Json F)}
    (hm : rows.foldlM (mergeRow parse) JsMap.empty = some m) (cid : String) (v : Json F)
    (hget : m.get? cid = some v) : rowCid v = some cid := by
  have hmem := Newest.IsNewest.mem ((get?_merged_iff hm cid v).mp hget)
  simpa [rowsOf] using (List.mem_filter.mp hmem).2

/-- A verified row that is the first of the newest rows carries the newest verified record. -/
theorem isNewestRecord_of_row {rows : List (Json F)} {cid : String} {v : Json F}
    {r : FileRecord F}
    (h : Newest.IsNewest (laterRow parse) (realRow parse) (rowsOf rows cid) v)
    (hverified : verifiedRecord verify v = some r) :
    IsNewestRecord (verifiedOf verify rows cid) r := by
  obtain ⟨before, after, hrows, _, hbefore, hafter⟩ := h
  have hlater : ∀ {x y : Json F} {p q : FileRecord F}, verifiedRecord verify x = some p →
      verifiedRecord verify y = some q → laterRow parse x y = p.later q := by
    intro x y p q hx hy
    simp only [laterRow, rowStamp_of_verified hx, rowStamp_of_verified hy, FileRecord.later]
  refine ⟨before.filterMap (verifiedRecord verify), after.filterMap (verifiedRecord verify),
    ?_, fun _ _ => trivial, ?_, ?_⟩
  · rw [verifiedOf_eq, hrows, List.filterMap_append, List.filterMap_cons_some hverified]
  · intro p hp
    obtain ⟨x, hx, hxp⟩ := List.mem_filterMap.mp hp
    rcases hbefore x hx with hvx | hblank
    · left
      rw [← hlater hverified hxp]
      exact hvx
    · have hreal : realRow parse x :=
        ⟨p.timestamp, rowStamp_of_verified hxp,
          OrderedJsNumber.same_of_finite _ p.timestamp_finite⟩
      exact absurd hreal hblank
  · intro p hp
    obtain ⟨x, hx, hxp⟩ := List.mem_filterMap.mp hp
    rw [← hlater hxp hverified]
    exact hafter x hx

omit [OrderedJsNumber F] in
theorem fetchFileRecords_iff {records : List (Json F)} :
    (∃ archiveTotals, fetchFileRecords parse results = some (records, archiveTotals)) ↔
      (∀ body, some body ∈ results → (answerRows body).isSome = true) ∧
        ∃ m, (servedRows results).foldlM (mergeRow parse) JsMap.empty = some m ∧
          m.values = records := by
  have hmerge : ∀ m : JsMap String (Json F),
      (∃ u, results.foldlM (mergeAnswer parse) ⟨JsMap.empty, []⟩ = some u ∧ u.byCid = m) ↔
        (∀ body, some body ∈ results → (answerRows body).isSome = true) ∧
          (servedRows results).foldlM (mergeRow parse) JsMap.empty = some m :=
    mergeAnswers_iff results ⟨JsMap.empty, []⟩
  constructor
  · rintro ⟨archiveTotals, h⟩
    obtain ⟨u, hu, heq⟩ := Option.map_eq_some_iff.mp h
    obtain ⟨hall, hm⟩ := (hmerge u.byCid).mp ⟨u, hu, rfl⟩
    exact ⟨hall, u.byCid, hm, congrArg Prod.fst heq⟩
  · rintro ⟨hall, m, hm, rfl⟩
    obtain ⟨u, hu, rfl⟩ := (hmerge m).mpr ⟨hall, hm⟩
    exact ⟨u.archiveTotals, Option.map_eq_some_iff.mpr ⟨u, hu, rfl⟩⟩

/-- A lookup finds all that verifying every row would find exactly when nothing in the
answers hides a file. -/
theorem unionComplete_iff :
    UnionComplete parse verify results ↔ NothingHidden parse verify results := by
  constructor
  · rintro ⟨records, archiveTotals, hfetch, hsame⟩
    obtain ⟨hall, m, hm, rfl⟩ := fetchFileRecords_iff.mp ⟨archiveTotals, hfetch⟩
    refine ⟨hall, mergeRows_iff.mp ⟨m, hm⟩, ?_⟩
    intro cid r hr hlive
    have hlisted : (foldFileRecords verify m.values).get? cid = some r := by
      rw [hsame cid, listed_iff]
      exact ⟨hr, hlive⟩
    obtain ⟨⟨v, hget, hverified⟩, _⟩ := (listed_values_iff (rowCid_of_merged hm)).mp hlisted
    exact ⟨v, (get?_merged_iff hm cid v).mp hget, hverified⟩
  · rintro ⟨hall, hconvertible, hshown⟩
    obtain ⟨m, hm⟩ := mergeRows_iff.mpr hconvertible
    obtain ⟨archiveTotals, hfetch⟩ := fetchFileRecords_iff.mpr ⟨hall, m, hm, rfl⟩
    refine ⟨m.values, archiveTotals, hfetch, ?_⟩
    intro cid
    ext r
    rw [listed_values_iff (rowCid_of_merged hm), listed_iff]
    refine and_congr_left fun hlive => ?_
    constructor
    · rintro ⟨v, hget, hverified⟩
      exact isNewestRecord_of_row ((get?_merged_iff hm cid v).mp hget) hverified
    · intro hr
      obtain ⟨v, hv, hverified⟩ := hshown cid r hr hlive
      exact ⟨v, (get?_merged_iff hm cid v).mpr hv, hverified⟩

end Lookup

/-! ## A forged row -/

namespace Sample

/-- An answer of an archive. -/
def answer (rows : List (Json Rat)) : Option (Json Rat) :=
  some (.obj [("records", .arr rows), ("total", .int rows.length)])

/-- The announcement as alice signed it, and a row for the same file that nobody signed. -/
def signedRow : Json Rat := .obj [("cid", .str "photo"), ("sizeBytes", .int 5),
  ("timestamp", .int 2), ("uploaderPub", .str "alice"), ("signature", .str "sig")]

def forgedRow (timestamp : Int) : Json Rat := .obj [("cid", .str "photo"), ("sizeBytes", .int 5),
  ("timestamp", .int timestamp), ("uploaderPub", .str "alice"), ("signature", .str "forged")]

def rowVerify : RecordVerifier := fun payload pub signature =>
  payload == "file:photo:5/1:alice:2/1" && pub == "alice" && signature == "sig"

/-- Texts are not numbers here. -/
def noParse : String → Rat := fun _ => 0

end Sample

/-- One archive serves a file; another serves a forged row for it with a later date, and the
lookup finds nothing. -/
theorem forged_row_hides : ¬ ∀ (parse : String → Rat) (verify : RecordVerifier)
    (results : List (Option (Json Rat))),
    (∀ cid, ∀ r ∈ verifiedOf verify (servedRows results) cid,
      ∀ s ∈ verifiedOf verify (servedRows results) cid, r.timestamp = s.timestamp → r = s) →
    UnionComplete parse verify results := by
  intro hall
  obtain ⟨records, archiveTotals, hfetch, hsame⟩ := hall Sample.noParse Sample.rowVerify
    [Sample.answer [Sample.signedRow], Sample.answer [Sample.forgedRow 3]]
    (by
      intro cid r hr s hs _
      have hone : ([Sample.signedRow, Sample.forgedRow 3].filterMap
          (verifiedRecord Sample.rowVerify)).length = 1 := by decide +kernel
      obtain ⟨t, ht⟩ := List.length_eq_one_iff.mp hone
      have hmem : ∀ u, u ∈ verifiedOf Sample.rowVerify
          [Sample.signedRow, Sample.forgedRow 3] cid → u = t := by
        intro u hu
        have hall := (List.mem_filter.mp hu).1
        rw [ht, List.mem_singleton] at hall
        exact hall
      rw [hmem r hr, hmem s hs])
  have hmerged : fetchFileRecords Sample.noParse
      [Sample.answer [Sample.signedRow], Sample.answer [Sample.forgedRow 3]] =
        some ([Sample.forgedRow 3], [1, 1]) := by rfl
  rw [hmerged] at hfetch
  have hsame := hsame "photo"
  rw [← (Prod.mk.inj (Option.some.inj hfetch)).1] at hsame
  have hhidden : ((foldFileRecords Sample.rowVerify
      [Sample.forgedRow 3]).get? "photo").isSome = false := by decide +kernel
  have hserved : ((foldFileRecords Sample.rowVerify
      [Sample.signedRow, Sample.forgedRow 3]).get? "photo").isSome = true := by decide +kernel
  have hcontra : ((foldFileRecords Sample.rowVerify
      [Sample.signedRow, Sample.forgedRow 3]).get? "photo").isSome = false :=
    (congrArg Option.isSome hsame).symm.trans hhidden
  rw [hserved] at hcontra
  cases hcontra

/-- A forged row with an earlier date hides nothing. -/
theorem older_forgery_harmless : UnionComplete Sample.noParse Sample.rowVerify
    [Sample.answer [Sample.forgedRow 1], Sample.answer [Sample.signedRow]] := by
  refine unionComplete_iff.mpr ⟨?_, ?_, ?_⟩
  · intro body hbody
    simp only [List.mem_cons, List.not_mem_nil, or_false] at hbody
    rcases hbody with h | h
    · rw [Option.some.inj h]
      rfl
    · rw [Option.some.inj h]
      rfl
  · intro cid
    right
    intro v hv
    have hmem : v ∈ [Sample.forgedRow 1, Sample.signedRow] := (List.mem_filter.mp hv).1
    rcases List.mem_pair.mp hmem with rfl | rfl
    · rfl
    · rfl
  · intro cid r hr _
    obtain ⟨⟨v, hv, hverified⟩, hcid⟩ := mem_verifiedOf_iff.mp (Newest.IsNewest.mem hr)
    rcases List.mem_pair.mp hv with rfl | rfl
    · have hnone : (verifiedRecord Sample.rowVerify (Sample.forgedRow 1)).isSome = false := by
        decide +kernel
      rw [hverified] at hnone
      cases hnone
    · have hphoto : cid = "photo" :=
        hcid.symm.trans (Option.some.inj (rowCid_of_verified hverified)).symm
      subst hphoto
      exact ⟨Sample.signedRow, (Newest.newest_eq_some_iff laterRow_ranking).mp rfl, hverified⟩

end NeuronWeb
