/-
  Node/ResyncWatermark: the blocks that a node has stored and has not applied yet
  (`resyncFromNet` in `network/node.ts`, `saveEngineBlock` and `loadEngineBlocksSince` in
  `network/libp2p-network.ts`).

  A resync pass reads the blocks above a watermark and hands those that the ledger lacks to the
  handler, one after the other. When it ends, it moves the watermark to what the counter is by
  then.

  A block that is saved after the pass has read is at or below that watermark without having
  been read, and no later pass looks at it.
-/
import Mathlib.Data.List.TakeWhile
import NeuronWeb.Core.Hash
import NeuronWeb.Foundation.Run

set_option autoImplicit false

namespace NeuronWeb

/-! ## The database and the passes -/

/-- A row of `engineblocks`. -/
structure EngineBlockRow where
  hash : Hex
  accountId : Hex
  index : Int
  /-- `_engVersion`. -/
  version : Nat
  deriving DecidableEq

/-- A call of `resyncFromNet`, at the await where it stands. -/
inductive ResyncPass where
  /-- Before it reads the engine blocks. -/
  | loading
  /-- It has read when the counter was `readAt`, and has not looked at `rest` yet. -/
  | handling (readAt : Nat) (rest : List EngineBlockRow)

/-- The database, the node, and what it has read and handed to its handler so far. -/
structure ResyncNode where
  /-- `engineBlockVersionCounter`. -/
  counter : Nat
  engineblocks : JsMap Hex EngineBlockRow
  /-- The writes that were issued; `none` has reached the database. -/
  writes : List (Option EngineBlockRow)
  /-- `lastSyncedEngineBlockVersion`. -/
  watermark : Nat
  /-- The hashes of `ledger.allBlocks`. -/
  allBlocks : JsSet Hex
  dirtyAccounts : JsSet Hex
  /-- The passes; `none` has ended. -/
  passes : List (Option ResyncPass)
  read : List EngineBlockRow
  handed : List EngineBlockRow

inductive ResyncEvent where
  /-- `saveEngineBlock`, up to its write. -/
  | save (hash accountId : Hex) (index : Int)
  /-- The `i`-th write reaches the database. -/
  | landed (i : Nat)
  /-- The ledger gets a block on another way. -/
  | learned (hash : Hex)
  /-- An account gets dirty. -/
  | touched (accountId : Hex)
  /-- `resyncFromNet` is called. -/
  | begin
  /-- The `i`-th pass reads the engine blocks; a read that fails finds none. -/
  | read (i : Nat) (ok : Bool)
  /-- The `i`-th pass goes on; the handler of the next block adds blocks to the ledger, given
  with their accounts. -/
  | resume (i : Nat) (admitted : List (Hex × Hex))
  /-- Something that the `i`-th pass waits for throws. -/
  | fail (i : Nat)

namespace ResyncNode

/-- `sortEngineBlocks`. -/
def sortEngineBlocks (rows : List EngineBlockRow) : List EngineBlockRow :=
  rows.mergeSort fun a b =>
    if a.accountId = b.accountId then decide (a.index ≤ b.index)
    else decide (a.accountId < b.accountId)

/-- `loadEngineBlocksSince(sinceVersion)`, over the index by version. -/
def loadEngineBlocksSince (s : ResyncNode) (sinceVersion : Nat) : List EngineBlockRow :=
  let newer := s.engineblocks.values.filter fun row => decide (sinceVersion < row.version)
  sortEngineBlocks (newer.mergeSort fun a b => decide (a.version ≤ b.version))

def holds (s : ResyncNode) (row : EngineBlockRow) : Bool := s.allBlocks.has row.hash

/-- The loop over the blocks that were read, up to its next await, or to the end of the pass. -/
def goOn (s : ResyncNode) (i readAt : Nat) (rest : List EngineBlockRow)
    (admitted : List (Hex × Hex)) : ResyncNode :=
  match rest.dropWhile s.holds with
  | [] => { s with watermark := s.counter, passes := s.passes.set i none }
  | row :: later =>
    { s with
      handed := row :: s.handed
      allBlocks := s.allBlocks.addAll (admitted.map Prod.fst)
      dirtyAccounts := s.dirtyAccounts.addAll (admitted.map Prod.snd)
      passes := s.passes.set i (some (.handling readAt later)) }

def step (s : ResyncNode) : ResyncEvent → ResyncNode
  | .save hash accountId index =>
    { s with
      counter := s.counter + 1
      writes := s.writes ++ [some ⟨hash, accountId, index, s.counter + 1⟩] }
  | .landed i =>
    match s.writes[i]? with
    | some (some row) =>
      { s with
        engineblocks := s.engineblocks.set row.hash row
        writes := s.writes.set i none }
    | _ => s
  | .learned hash => { s with allBlocks := s.allBlocks.add hash }
  | .touched accountId => { s with dirtyAccounts := s.dirtyAccounts.add accountId }
  | .begin =>
    if s.dirtyAccounts.keys.isEmpty then s
    else { s with dirtyAccounts := .empty, passes := s.passes ++ [some .loading] }
  | .read i ok =>
    match s.passes[i]? with
    | some (some .loading) =>
      let rows := if ok then s.loadEngineBlocksSince s.watermark else []
      { s with
        read := rows ++ s.read
        passes := s.passes.set i (some (.handling s.counter rows)) }
    | _ => s
  | .resume i admitted =>
    match s.passes[i]? with
    | some (some (.handling readAt rest)) => s.goOn i readAt rest admitted
    | _ => s
  | .fail i => { s with passes := s.passes.set i none }

end ResyncNode

/-- What a node finds when it starts. -/
structure StoredBlocks where
  counter : Nat
  engineblocks : JsMap Hex EngineBlockRow
  /-- The counter is stored before a block. -/
  le_counter : ∀ row ∈ engineblocks.values, row.version ≤ counter

/-- The start has read every stored block and has given it to the ledger, which took some. -/
def StoredBlocks.boot (stored : StoredBlocks) (allBlocks : JsSet Hex) : ResyncNode where
  counter := stored.counter
  engineblocks := stored.engineblocks
  writes := []
  watermark := stored.counter
  allBlocks := allBlocks
  dirtyAccounts := .empty
  passes := []
  read := stored.engineblocks.values
  handed := stored.engineblocks.values

namespace ResyncNode

/-! ## What is skipped -/

/-- A row that is stored or on its way there. -/
def Saved (s : ResyncNode) (row : EngineBlockRow) : Prop :=
  row ∈ s.engineblocks.values ∨ some row ∈ s.writes

/-- What is at or below the watermark has been read, and handed on if the ledger lacks it. -/
structure NothingSkipped (s : ResyncNode) : Prop where
  read : ∀ row, s.Saved row → row.version ≤ s.watermark → row ∈ s.read
  handed : ∀ row ∈ s.engineblocks.values, s.holds row = false → row.version ≤ s.watermark →
    row ∈ s.handed

/-- The step is the last of a pass. -/
def ends (s : ResyncNode) : ResyncEvent → Bool
  | .resume i _ =>
    match s.passes[i]? with
    | some (some (.handling _ rest)) => rest.all s.holds
    | _ => false
  | _ => false

/-- A pass that ends has handed on every stored block that the ledger lacks. -/
def HandsAll (s : ResyncNode) (e : ResyncEvent) (s' : ResyncNode) : Prop :=
  s.ends e = true → ∀ row ∈ s'.engineblocks.values, s'.holds row = false → row ∈ s'.handed

/-- A pass reads when no write is on its way, and succeeds; where it moves the watermark, it
ends with the counter that it has read at. -/
def upToDate (s : ResyncNode) : ResyncEvent → Bool
  | .read _ ok => ok && s.writes.all Option.isNone
  | .resume i _ =>
    match s.passes[i]? with
    | some (some (.handling readAt rest)) =>
      !rest.all s.holds || decide (s.counter = readAt) || decide (s.counter = s.watermark)
    | _ => true
  | _ => true

/-! ## What a pass still has to look at -/

section Covered

variable {s s' : ResyncNode} {upTo : Nat} {rest : List EngineBlockRow} {row : EngineBlockRow}

/-- Up to a version, what is stored has been read, and what the ledger lacks has been handed on
or is in `rest`. -/
structure Covered (s : ResyncNode) (upTo : Nat) (rest : List EngineBlockRow) : Prop where
  writes : ∀ row, some row ∈ s.writes → upTo < row.version
  stored : ∀ row ∈ s.engineblocks.values, row.version ≤ upTo →
    row ∈ s.read ∧ (row ∈ rest ∨ s.holds row = true ∨ row ∈ s.handed)

/-- The ledger and the two records only grow. -/
structure Grows (s s' : ResyncNode) : Prop where
  holds : ∀ row, s.holds row = true → s'.holds row = true
  read : s.read ⊆ s'.read
  handed : s.handed ⊆ s'.handed

theorem Covered.mono (h : Covered s upTo rest) (hgrows : Grows s s')
    (hwrites : ∀ row, some row ∈ s'.writes → some row ∈ s.writes ∨ upTo < row.version)
    (hstored : ∀ row ∈ s'.engineblocks.values, row ∈ s.engineblocks.values ∨
      some row ∈ s.writes) : Covered s' upTo rest where
  writes row hmem := by
    rcases hwrites row hmem with hold | hnew
    · exact h.writes row hold
    · exact hnew
  stored row hmem hle := by
    rcases hstored row hmem with hold | hlanded
    · obtain ⟨hread, hcase⟩ := h.stored row hold hle
      exact ⟨hgrows.read hread,
        hcase.imp_right (Or.imp (hgrows.holds row) fun hhanded => hgrows.handed hhanded)⟩
    · have hlt := h.writes row hlanded
      omega

theorem Covered.grow (h : Covered s upTo rest) (hgrows : Grows s s')
    (hwrites : s'.writes = s.writes) (hstored : s'.engineblocks = s.engineblocks) :
    Covered s' upTo rest :=
  h.mono hgrows (fun _ hmem => .inl (hwrites ▸ hmem)) (fun _ hmem => .inl (hstored ▸ hmem))

/-- The invariant of orderly runs. -/
structure Kept (s : ResyncNode) : Prop where
  writes_le : ∀ row, some row ∈ s.writes → row.version ≤ s.counter
  stored_le : ∀ row ∈ s.engineblocks.values, row.version ≤ s.counter
  watermark_le : s.watermark ≤ s.counter
  settled : Covered s s.watermark []
  passes : ∀ readAt rest, some (.handling readAt rest) ∈ s.passes →
    readAt ≤ s.counter ∧ Covered s readAt rest

theorem Kept.nothingSkipped (h : Kept s) : NothingSkipped s where
  read row hsaved hle := by
    rcases hsaved with hstored | hwrite
    · exact (h.settled.stored row hstored hle).1
    · have hlt := h.settled.writes row hwrite
      omega
  handed row hstored hlacks hle := by
    rcases (h.settled.stored row hstored hle).2 with hnil | hholds | hhanded
    · cases hnil
    · rw [hlacks] at hholds
      cases hholds
    · exact hhanded

theorem kept_boot (stored : StoredBlocks) (allBlocks : JsSet Hex) :
    Kept (stored.boot allBlocks) where
  writes_le _ hmem := (List.not_mem_nil hmem).elim
  stored_le := stored.le_counter
  watermark_le := le_rfl
  settled := ⟨fun _ hmem => (List.not_mem_nil hmem).elim, fun _ hmem _ => ⟨hmem, .inr (.inr hmem)⟩⟩
  passes _ _ hmem := (List.not_mem_nil hmem).elim

theorem mem_values_set {K V : Type} [DecidableEq K] {m : JsMap K V} {k : K} {v w : V}
    (h : w ∈ (m.set k v).values) : w = v ∨ w ∈ m.values := by
  obtain ⟨e, he, rfl⟩ := List.mem_map.mp h
  have hget := ((m.set k v).get?_eq_some_iff e.1 e.2).mpr he
  rw [JsMap.get?_set] at hget
  split at hget
  case isTrue => exact .inl (Option.some.inj hget).symm
  case isFalse =>
    exact .inr (List.mem_map.mpr ⟨e, (m.get?_eq_some_iff e.1 e.2).mp hget, rfl⟩)

theorem mem_of_mem_set {α : Type} {l : List (Option α)} {i : Nat} {a : α}
    (h : some a ∈ l.set i none) : some a ∈ l := by
  rcases List.mem_or_eq_of_mem_set h with hmem | heq
  · exact hmem
  · cases heq

theorem mem_loadEngineBlocksSince {since : Nat} :
    row ∈ s.loadEngineBlocksSince since ↔ row ∈ s.engineblocks.values ∧ since < row.version := by
  simp only [loadEngineBlocksSince, sortEngineBlocks, List.mem_mergeSort, List.mem_filter,
    decide_eq_true_eq]

theorem Kept.quiet (h : Kept s) (hgrows : Grows s s') (hcounter : s'.counter = s.counter)
    (hwatermark : s'.watermark = s.watermark) (hwrites : s'.writes = s.writes)
    (hstored : s'.engineblocks = s.engineblocks)
    (hpasses : ∀ readAt rest, some (.handling readAt rest) ∈ s'.passes →
      some (.handling readAt rest) ∈ s.passes) : Kept s' where
  writes_le row hmem := hcounter ▸ h.writes_le row (hwrites ▸ hmem)
  stored_le row hmem := hcounter ▸ h.stored_le row (hstored ▸ hmem)
  watermark_le := by
    rw [hcounter, hwatermark]
    exact h.watermark_le
  settled := hwatermark ▸ h.settled.grow hgrows hwrites hstored
  passes readAt rest hmem := by
    obtain ⟨hle, hcovered⟩ := h.passes readAt rest (hpasses readAt rest hmem)
    exact ⟨hcounter ▸ hle, hcovered.grow hgrows hwrites hstored⟩

theorem Kept.save (h : Kept s) (hash accountId : Hex) (index : Int) :
    Kept (s.step (.save hash accountId index)) := by
  -- the new version is above everything that a pass or the watermark covers
  have hwrites : ∀ upTo ≤ s.counter, ∀ row,
      some row ∈ s.writes ++ [some ⟨hash, accountId, index, s.counter + 1⟩] →
      some row ∈ s.writes ∨ upTo < row.version := by
    intro upTo hle row hmem
    rcases List.mem_append.mp hmem with hmem | hmem
    · exact .inl hmem
    · rw [Option.some.inj (List.mem_singleton.mp hmem)]
      exact .inr (Nat.lt_succ_of_le hle)
  have hcovered : ∀ upTo ≤ s.counter, ∀ rest, Covered s upTo rest →
      Covered (s.step (.save hash accountId index)) upTo rest := fun upTo hle rest hc =>
    hc.mono ⟨fun _ hh => hh, List.Subset.refl _, List.Subset.refl _⟩ (hwrites upTo hle)
      fun _ hmem => .inl hmem
  refine ⟨fun row hmem => ?_, fun row hmem => ?_, ?_, ?_, fun readAt rest hmem => ?_⟩
  · rcases List.mem_append.mp hmem with hmem | hmem
    · exact (h.writes_le row hmem).trans (Nat.le_succ _)
    · rw [Option.some.inj (List.mem_singleton.mp hmem)]
      exact le_rfl
  · exact (h.stored_le row hmem).trans (Nat.le_succ _)
  · exact h.watermark_le.trans (Nat.le_succ _)
  · exact hcovered s.watermark h.watermark_le [] h.settled
  · obtain ⟨hle, hc⟩ := h.passes readAt rest hmem
    exact ⟨hle.trans (Nat.le_succ _), hcovered readAt hle rest hc⟩

theorem Kept.landed (h : Kept s) (i : Nat) : Kept (s.step (.landed i)) := by
  rw [step]
  split
  next row hwrite =>
    have hrow : some row ∈ s.writes := List.mem_of_getElem? hwrite
    have hstored : ∀ row', row' ∈ (s.engineblocks.set row.hash row).values →
        row' ∈ s.engineblocks.values ∨ some row' ∈ s.writes := by
      intro row' hmem
      rcases mem_values_set hmem with rfl | hmem
      · exact .inr hrow
      · exact .inl hmem
    have hcovered : ∀ upTo rest, Covered s upTo rest → Covered
        { s with
          engineblocks := s.engineblocks.set row.hash row
          writes := s.writes.set i none } upTo rest := fun upTo rest hc =>
      hc.mono ⟨fun _ hh => hh, List.Subset.refl _, List.Subset.refl _⟩
        (fun _ hmem => .inl (mem_of_mem_set hmem)) hstored
    refine ⟨fun row' hmem => h.writes_le row' (mem_of_mem_set hmem), fun row' hmem => ?_,
      h.watermark_le, hcovered _ _ h.settled, fun readAt rest hmem => ?_⟩
    · rcases hstored row' hmem with hold | hlanded
      · exact h.stored_le row' hold
      · exact h.writes_le row' hlanded
    · obtain ⟨hle, hc⟩ := h.passes readAt rest hmem
      exact ⟨hle, hcovered readAt rest hc⟩
  next => exact h

theorem Kept.begin (h : Kept s) : Kept (s.step .begin) := by
  rw [step]
  split
  case isTrue => exact h
  case isFalse =>
    refine h.quiet ⟨fun _ hh => hh, List.Subset.refl _, List.Subset.refl _⟩ rfl rfl rfl rfl ?_
    intro readAt rest hmem
    rcases List.mem_append.mp hmem with hmem | hmem
    · exact hmem
    · cases Option.some.inj (List.mem_singleton.mp hmem)

/-- A read that succeeds while no write is on its way finds all that is above the watermark. -/
theorem Kept.read (h : Kept s) (i : Nat) {ok : Bool} (hok : s.upToDate (.read i ok) = true) :
    Kept (s.step (.read i ok)) := by
  obtain ⟨rfl, hwrites⟩ := Bool.and_eq_true_iff.mp hok
  rw [step]
  split
  next =>
    have hgrows : Grows s
        { s with
          read := s.loadEngineBlocksSince s.watermark ++ s.read
          passes := s.passes.set i
            (some (.handling s.counter (s.loadEngineBlocksSince s.watermark))) } :=
      ⟨fun _ hh => hh, List.subset_append_right _ _, List.Subset.refl _⟩
    refine ⟨h.writes_le, h.stored_le, h.watermark_le, h.settled.grow hgrows rfl rfl,
      fun readAt rest hmem => ?_⟩
    rcases List.mem_or_eq_of_mem_set hmem with hold | hnew
    · obtain ⟨hle, hc⟩ := h.passes readAt rest hold
      exact ⟨hle, hc.grow hgrows rfl rfl⟩
    · cases Option.some.inj hnew
      refine ⟨le_rfl, fun row hmem => ?_, fun row hmem _ => ?_⟩
      · cases List.all_eq_true.mp hwrites _ hmem
      · rcases le_or_gt row.version s.watermark with hle | hgt
        · obtain ⟨hread, hcase⟩ := h.settled.stored row hmem hle
          exact ⟨List.mem_append_right _ hread,
            .inr (hcase.resolve_left List.not_mem_nil)⟩
        · have hfound := mem_loadEngineBlocksSince.mpr ⟨hmem, hgt⟩
          exact ⟨List.mem_append_left _ hfound, .inl hfound⟩
  next => exact h

theorem mem_cases_of_dropWhile {p : EngineBlockRow → Bool} {later : List EngineBlockRow}
    (h : rest.dropWhile p = row :: later) {row' : EngineBlockRow} (hmem : row' ∈ rest) :
    p row' = true ∨ row' = row ∨ row' ∈ later := by
  rw [← List.takeWhile_append_dropWhile (p := p) (l := rest), h] at hmem
  rcases List.mem_append.mp hmem with htaken | hleft
  · exact .inl (List.mem_takeWhile_imp htaken)
  · exact .inr (List.mem_cons.mp hleft)

theorem has_addAll_of_has {set : JsSet Hex} {k : Hex} (added : List Hex) (h : set.has k = true) :
    (set.addAll added).has k = true := by
  rw [JsSet.has_addAll]
  simp [h]

theorem Kept.hand (h : Kept s) {i readAt : Nat} {later : List EngineBlockRow}
    (admitted : List (Hex × Hex)) (hpass : s.passes[i]? = some (some (.handling readAt rest)))
    (hrest : rest.dropWhile s.holds = row :: later) :
    Kept { s with
      handed := row :: s.handed
      allBlocks := s.allBlocks.addAll (admitted.map Prod.fst)
      dirtyAccounts := s.dirtyAccounts.addAll (admitted.map Prod.snd)
      passes := s.passes.set i (some (.handling readAt later)) } := by
  have hgrows : Grows s { s with
      handed := row :: s.handed
      allBlocks := s.allBlocks.addAll (admitted.map Prod.fst)
      dirtyAccounts := s.dirtyAccounts.addAll (admitted.map Prod.snd)
      passes := s.passes.set i (some (.handling readAt later)) } :=
    ⟨fun row' hh => has_addAll_of_has _ hh, List.Subset.refl _, List.subset_cons_self _ _⟩
  refine ⟨h.writes_le, h.stored_le, h.watermark_le, h.settled.grow hgrows rfl rfl,
    fun readAt' rest' hmem => ?_⟩
  rcases List.mem_or_eq_of_mem_set hmem with hold | hnew
  · obtain ⟨hle, hc⟩ := h.passes readAt' rest' hold
    exact ⟨hle, hc.grow hgrows rfl rfl⟩
  · cases Option.some.inj hnew
    obtain ⟨hle, hc⟩ := h.passes readAt rest (List.mem_of_getElem? hpass)
    refine ⟨hle, hc.writes, fun row' hmem' hle' => ?_⟩
    obtain ⟨hread, hcase⟩ := (hc.grow hgrows rfl rfl).stored row' hmem' hle'
    refine ⟨hread, ?_⟩
    rcases hcase with hin | hother
    · rcases mem_cases_of_dropWhile hrest hin with hheld | rfl | hlater
      · exact .inr (.inl (hgrows.holds row' hheld))
      · exact .inr (.inr List.mem_cons_self)
      · exact .inl hlater
    · exact .inr hother

theorem Kept.finish (h : Kept s) {i readAt : Nat}
    (hpass : s.passes[i]? = some (some (.handling readAt rest)))
    (hheld : ∀ row ∈ rest, s.holds row = true)
    (hcounter : s.counter = readAt ∨ s.counter = s.watermark) :
    Kept { s with watermark := s.counter, passes := s.passes.set i none } := by
  have hcovered : Covered s s.counter [] := by
    rcases hcounter with hread | hwatermark
    · obtain ⟨-, hc⟩ := h.passes readAt rest (List.mem_of_getElem? hpass)
      rw [← hread] at hc
      refine ⟨hc.writes, fun row hmem hle => ?_⟩
      obtain ⟨hseen, hcase⟩ := hc.stored row hmem hle
      refine ⟨hseen, .inr ?_⟩
      rcases hcase with hin | hother
      · exact .inl (hheld row hin)
      · exact hother
    · rw [hwatermark]
      exact h.settled
  have hgrows : Grows s { s with watermark := s.counter, passes := s.passes.set i none } :=
    ⟨fun _ hh => hh, List.Subset.refl _, List.Subset.refl _⟩
  refine ⟨h.writes_le, h.stored_le, le_rfl, hcovered.grow hgrows rfl rfl,
    fun readAt' rest' hmem => ?_⟩
  obtain ⟨hle, hc⟩ := h.passes readAt' rest' (mem_of_mem_set hmem)
  exact ⟨hle, hc.grow hgrows rfl rfl⟩

theorem Kept.resume (h : Kept s) (i : Nat) (admitted : List (Hex × Hex))
    (hdate : s.upToDate (.resume i admitted) = true) : Kept (s.step (.resume i admitted)) := by
  rw [step]
  split
  next readAt rest hpass =>
    rw [goOn]
    split
    next hnil =>
      have hheld : ∀ row ∈ rest, s.holds row = true := List.dropWhile_eq_nil_iff.mp hnil
      refine h.finish hpass hheld ?_
      have hall : rest.all s.holds = true := List.all_eq_true.mpr hheld
      rw [upToDate, hpass] at hdate
      simpa [hall] using hdate
    next row later hcons => exact h.hand admitted hpass hcons
  next => exact h

theorem Kept.step (h : Kept s) (e : ResyncEvent) (hdate : s.upToDate e = true) :
    Kept (s.step e) := by
  cases e with
  | save hash accountId index => exact h.save hash accountId index
  | landed i => exact h.landed i
  | learned hash =>
    exact h.quiet ⟨fun row hh => JsSet.has_add_of_has hash hh, List.Subset.refl _,
      List.Subset.refl _⟩ rfl rfl rfl rfl fun _ _ hmem => hmem
  | touched accountId =>
    exact h.quiet ⟨fun _ hh => hh, List.Subset.refl _, List.Subset.refl _⟩ rfl rfl rfl rfl
      fun _ _ hmem => hmem
  | begin => exact h.begin
  | read i ok => exact h.read i hdate
  | resume i admitted => exact h.resume i admitted hdate
  | fail i =>
    exact h.quiet ⟨fun _ hh => hh, List.Subset.refl _, List.Subset.refl _⟩ rfl rfl rfl rfl
      fun _ _ hmem => mem_of_mem_set hmem

theorem watermark_of_ends {e : ResyncEvent} (h : s.ends e = true) :
    (s.step e).watermark = (s.step e).counter := by
  cases e with
  | resume i admitted =>
    rw [ends] at h
    rw [ResyncNode.step]
    split at h
    next readAt rest hpass =>
      have hnil : rest.dropWhile s.holds = [] :=
        List.dropWhile_eq_nil_iff.mpr (List.all_eq_true.mp h)
      simp only [goOn, hnil]
    next => cases h
  | save => cases h
  | landed => cases h
  | learned => cases h
  | touched => cases h
  | begin => cases h
  | read => cases h
  | fail => cases h

theorem Kept.handsAll (h : Kept s) {e : ResyncEvent} (hdate : s.upToDate e = true) :
    s.HandsAll e (s.step e) := by
  intro hends row hstored hlacks
  have hnext := h.step e hdate
  refine hnext.nothingSkipped.handed row hstored hlacks ?_
  rw [watermark_of_ends hends]
  exact hnext.stored_le row hstored

end Covered

/-- Whatever the order of saves and passes: as long as every pass reads when no write is on its
way and moves the watermark to the counter that it has read at, no stored block gets at or
below the watermark unread, and every pass that ends has handed on all that the ledger lacks. -/
theorem never_skips (stored : StoredBlocks) (allBlocks : JsSet Hex) (events : List ResyncEvent)
    (h : Run.StepsMeet step (fun s e => s.upToDate e = true) (stored.boot allBlocks) events) :
    Run.Always step NothingSkipped (stored.boot allBlocks) events ∧
      Run.EveryStep step HandsAll (stored.boot allBlocks) events :=
  ⟨Run.always_of_invariant (fun _ e hs he => hs.step e he) (fun _ hs => hs.nothingSkipped)
      (kept_boot stored allBlocks) h,
    Run.everyStep_of_invariant (fun _ e hs he => hs.step e he) (fun _ _ hs he => hs.handsAll he)
      (kept_boot stored allBlocks) h⟩

/-- A database that is still empty. -/
def emptyStore : StoredBlocks := ⟨0, .empty, fun _ hmem => (List.not_mem_nil hmem).elim⟩

/-- A block is saved, and then a pass finds it and hands it on. -/
def saveThenPass : List ResyncEvent :=
  [.save "b1" "alice" 1, .landed 0, .touched "alice", .begin, .read 0 true,
    .resume 0 [("b1", "alice")], .resume 0 []]

theorem never_skips_saveThenPass :
    Run.Always step NothingSkipped (emptyStore.boot .empty) saveThenPass ∧
      Run.EveryStep step HandsAll (emptyStore.boot .empty) saveThenPass :=
  never_skips emptyStore .empty saveThenPass (by decide +kernel)

/-- A block is saved while a pass waits for what it has read. -/
def saveDuringPass : List ResyncEvent :=
  [.touched "alice", .begin, .read 0 true, .save "b1" "alice" 1, .landed 0, .resume 0 []]

/-- A later pass, up to its last step. -/
def passAgain : List ResyncEvent := [.touched "alice", .begin, .read 1 true]

/-- The block is at the watermark and was not read, and the next pass comes to its end without
it. -/
theorem saved_during_pass_skipped :
    let s := Run.final step (emptyStore.boot .empty) saveDuringPass
    let s' := Run.final step s passAgain
    s.engineblocks.values = [⟨"b1", "alice", 1, 1⟩] ∧ s.watermark = 1 ∧ ¬ NothingSkipped s ∧
      s'.ends (.resume 1 []) = true ∧ ¬ HandsAll s' (.resume 1 []) (s'.step (.resume 1 [])) := by
  intro s s'
  have hstored : s.engineblocks.values = [⟨"b1", "alice", 1, 1⟩] := by decide +kernel
  have hwatermark : s.watermark = 1 := by decide +kernel
  have hread : s.read = [] := by decide +kernel
  have hends : s'.ends (.resume 1 []) = true := by decide +kernel
  refine ⟨hstored, hwatermark, fun hkept => ?_, hends, fun hall => ?_⟩
  · have hmem := hkept.read ⟨"b1", "alice", 1, 1⟩ (.inl (hstored ▸ List.mem_cons_self))
      hwatermark.ge
    rw [hread] at hmem
    cases hmem
  · have hlater : (s'.step (.resume 1 [])).engineblocks.values = [⟨"b1", "alice", 1, 1⟩] := by
      decide +kernel
    have hhanded : (s'.step (.resume 1 [])).handed = [] := by decide +kernel
    have hmem := hall hends ⟨"b1", "alice", 1, 1⟩ (hlater ▸ List.mem_cons_self)
      (by decide +kernel)
    rw [hhanded] at hmem
    cases hmem

end ResyncNode

end NeuronWeb
