/-
  Relay/ForkEvidence: the forks that the archive announces (`relay/server.ts`).

  The archive indexes the first hash that it sees at a height. A later block of another hash at
  that height is announced together with the first one, once for each height, and only once the
  publisher is armed: the pair that is announced need not be the pair that convicts.
-/
import NeuronWeb.Foundation.Run
import NeuronWeb.Ledger.Sample

set_option autoImplicit false

namespace NeuronWeb

variable {F : Type}

/-- A row of `engineBlockStore`; its `blockHex` stands as the block that it decodes to. -/
structure StoredBlock (F : Type) where
  hash : Hex
  accountId : Hex
  index : Int
  shard : Int
  network : String
  block : Block F

/-- One call of `publishConflict(network, shard, aHex, bHex)`. -/
structure ConflictNotice (F : Type) where
  network : String
  shard : Int
  a : Block F
  b : Block F

/-- The archive of a relay with its fork index. -/
structure ForkArchive (F : Type) where
  engineBlockStore : JsMap Hex (StoredBlock F)
  engineHeightIndex : JsMap String Hex
  conflictAnnounced : JsSet String
  /-- `publishConflict` is set. -/
  armed : Bool
  /-- The calls of `publishConflict` so far. -/
  published : List (ConflictNotice F)

namespace ForkArchive

def new : ForkArchive F := ⟨.empty, .empty, .empty, false, []⟩

/-- `${row.network}:${row.accountId}:${row.index}`. -/
def heightKey (row : StoredBlock F) : String :=
  row.network ++ ":" ++ row.accountId ++ ":" ++ toString row.index

/-- `indexEngineRow(row)`: height-index a stored row; publish conflict evidence if a sibling
exists. -/
def indexEngineRow (s : ForkArchive F) (row : StoredBlock F) : ForkArchive F :=
  let hkey := heightKey row
  match s.engineHeightIndex.get? hkey with
  | some prior =>
    if prior ≠ "" ∧ prior ≠ row.hash then
      if s.conflictAnnounced.has hkey then s
      else
        let announced := s.conflictAnnounced.add hkey
        match s.engineBlockStore.get? prior with
        | some sibling =>
          if s.armed then
            { s with
              conflictAnnounced := announced
              published := s.published ++
                [⟨row.network, row.shard, sibling.block, row.block⟩] }
          else { s with conflictAnnounced := announced }
        | none => { s with conflictAnnounced := announced }
    else { s with engineHeightIndex := s.engineHeightIndex.set hkey row.hash }
  | none => { s with engineHeightIndex := s.engineHeightIndex.set hkey row.hash }

/-- A row enters the archive. -/
def keep (s : ForkArchive F) (row : StoredBlock F) : ForkArchive F :=
  indexEngineRow { s with engineBlockStore := s.engineBlockStore.set row.hash row } row

/-- `archiveEngineBlock(blockHex, network)`; the block is `none` where the hex does not decode. -/
def archiveEngineBlock (P : Primitives F) (s : ForkArchive F) (block : Option (Block F))
    (network : String) : ForkArchive F :=
  match block with
  | none => s
  | some block =>
    if verifyBlock P block = false then s
    else if s.engineBlockStore.has block.hash then s
    else s.keep ⟨block.hash, block.accountId, block.index, block.shard, network, block⟩

/-- One row of `loadEngineBlocks`; `none` where its `blockHex` does not decode. -/
def loadRow (P : Primitives F) (s : ForkArchive F) (row : Option (StoredBlock F)) :
    ForkArchive F :=
  match row with
  | none => s
  | some row =>
    if row.block.hash ≠ row.hash ∨ verifyBlock P row.block = false then s else s.keep row

/-- What happens to the archive: `loadEngineBlocks` comes to a row, `main` sets
`publishConflict`, or gossip brings a block. -/
inductive Input (F : Type) where
  | load (row : Option (StoredBlock F))
  | arm
  | gossip (block : Option (Block F)) (network : String)

def step (P : Primitives F) (s : ForkArchive F) : Input F → ForkArchive F
  | .load row => s.loadRow P row
  | .arm => { s with armed := true }
  | .gossip block network => archiveEngineBlock P s block network

/-! ## What is announced -/

/-- Two blocks are evidence against an account that `verifyDoubleSpend` accepts. -/
def Convicts (P : Primitives F) (accountId : Hex) (a b : Block F) : Prop :=
  verifyDoubleSpend P ⟨a.accountId, a.index, a.previousHash, a, b⟩ = true ∧
    a.accountId = accountId

theorem convicts_iff {P : Primitives F} {accountId : Hex} {a b : Block F} :
    Convicts P accountId a b ↔ DoubleSigned P accountId a b := by
  unfold Convicts
  rw [verifyDoubleSpend_iff]
  constructor
  · rintro ⟨h, rfl⟩
    exact h
  · intro h
    have hsame : a.accountId = accountId := h.account_a
    exact ⟨hsame ▸ h, hsame⟩

theorem Convicts.symm {P : Primitives F} {accountId : Hex} {a b : Block F}
    (h : Convicts P accountId a b) : Convicts P accountId b a := by
  rw [convicts_iff] at h ⊢
  exact ⟨h.account_b, h.account_a, h.hash_ne.symm, h.same_index.symm,
    h.same_previousHash.symm, h.verify_b, h.verify_a⟩

/-- A pair that convicts the account has been passed to `publishConflict`. -/
def Announced (P : Primitives F) (s : ForkArchive F) (accountId : Hex) : Prop :=
  ∃ notice ∈ s.published, Convicts P accountId notice.a notice.b

/-- Every fork between two archived blocks of one network is announced. -/
def ForksAnnounced (P : Primitives F) (s : ForkArchive F) : Prop :=
  ∀ (h h' : Hex) (row row' : StoredBlock F), s.engineBlockStore.get? h = some row →
    s.engineBlockStore.get? h' = some row' → row.network = row'.network →
    ∀ accountId, Convicts P accountId row.block row'.block → Announced P s accountId

/-- The row that an input brings to the archive. -/
def admits (P : Primitives F) (s : ForkArchive F) : Input F → Option (StoredBlock F)
  | .load row =>
    row.filter fun row => decide (row.block.hash = row.hash) && verifyBlock P row.block
  | .arm => none
  | .gossip block network =>
    (block.filter fun block =>
      verifyBlock P block && !s.engineBlockStore.has block.hash).map
        fun block => ⟨block.hash, block.accountId, block.index, block.shard, network, block⟩

/-- A row is about to be announced together with the sibling that was first seen at its
height. -/
def AnnouncesWith (s : ForkArchive F) (row sibling : StoredBlock F) : Prop :=
  s.armed = true ∧ s.conflictAnnounced.has (heightKey row) = false ∧
    ∃ prior, s.engineHeightIndex.get? (heightKey row) = some prior ∧ prior ≠ "" ∧
      prior ≠ row.hash ∧ s.engineBlockStore.get? prior = some sibling

/-- The pair that is about to be announced convicts the account. -/
def FirstConvicts (P : Primitives F) (s : ForkArchive F) (row : StoredBlock F)
    (accountId : Hex) : Prop :=
  ∃ sibling, AnnouncesWith s row sibling ∧ Convicts P accountId sibling.block row.block

/-- An input that brings no fork, or one whose account is announced already, or one with the
block first seen at that height. -/
def ForksWithFirst (P : Primitives F) (s : ForkArchive F) (input : Input F) : Prop :=
  ∀ row, admits P s input = some row → ∀ (h : Hex) (old : StoredBlock F), h ≠ row.hash →
    s.engineBlockStore.get? h = some old → old.network = row.network →
    ∀ accountId, Convicts P accountId old.block row.block →
      Announced P s accountId ∨ FirstConvicts P s row accountId

/-! ## One input -/

variable {P : Primitives F} {s : ForkArchive F}

theorem step_cases (s : ForkArchive F) (input : Input F) :
    (∃ row, admits P s input = some row ∧ step P s input = s.keep row) ∨
    (admits P s input = none ∧ (step P s input).engineBlockStore = s.engineBlockStore ∧
      (step P s input).published = s.published) := by
  cases input with
  | arm => exact .inr ⟨rfl, rfl, rfl⟩
  | load row =>
    cases row with
    | none => exact .inr ⟨rfl, rfl, rfl⟩
    | some row =>
      by_cases hvalid : row.block.hash = row.hash ∧ verifyBlock P row.block = true
      · refine .inl ⟨row, ?_, ?_⟩
        · simp only [admits, Option.filter_some, hvalid.1, hvalid.2, decide_true,
            Bool.and_self, if_true]
        · simp only [step, loadRow, hvalid.1, hvalid.2, ne_eq, not_true_eq_false,
            Bool.true_eq_false, or_self, if_false]
      · have hbad : row.block.hash ≠ row.hash ∨ verifyBlock P row.block = false := by
          by_cases hhash : row.block.hash = row.hash
          · exact .inr (Bool.eq_false_iff.mpr fun hv => hvalid ⟨hhash, hv⟩)
          · exact .inl hhash
        refine .inr ⟨?_, ?_, ?_⟩
        · simp only [admits, Option.filter_eq_none_iff, Option.some.injEq, Bool.and_eq_true,
            decide_eq_true_eq]
          rintro _ rfl
          exact hvalid
        · simp only [step, loadRow, if_pos hbad]
        · simp only [step, loadRow, if_pos hbad]
  | gossip block network =>
    cases block with
    | none => exact .inr ⟨rfl, rfl, rfl⟩
    | some block =>
      simp only [admits, step, archiveEngineBlock]
      split
      · next hbad =>
          refine .inr ⟨?_, rfl, rfl⟩
          simp only [Option.filter_some, hbad, Bool.false_and, Bool.false_eq_true, if_false,
            Option.map_none]
      · next hgood =>
          rw [Bool.not_eq_false] at hgood
          split
          · next hknown =>
              refine .inr ⟨?_, rfl, rfl⟩
              simp only [Option.filter_some, hknown, Bool.not_true, Bool.and_false,
                Bool.false_eq_true, if_false, Option.map_none]
          · next hfresh =>
              refine .inl ⟨_, ?_, rfl⟩
              simp only [Option.filter_some, hgood, hfresh, Bool.not_false, Bool.and_self,
                if_true, Option.map_some]

theorem engineBlockStore_keep (s : ForkArchive F) (row : StoredBlock F) :
    (s.keep row).engineBlockStore = s.engineBlockStore.set row.hash row := by
  unfold keep indexEngineRow
  dsimp only
  split
  · split
    · split
      · rfl
      · split
        · split <;> rfl
        · rfl
    · rfl
  · rfl

/-- A row is announced with the block first seen at its height, or not at all. -/
theorem published_keep (s : ForkArchive F) (row : StoredBlock F) :
    (∃ sibling, AnnouncesWith s row sibling ∧
      (s.keep row).published =
        s.published ++ [⟨row.network, row.shard, sibling.block, row.block⟩]) ∨
    ((∀ sibling, ¬ AnnouncesWith s row sibling) ∧ (s.keep row).published = s.published) := by
  unfold keep indexEngineRow
  dsimp only
  split
  · next prior hprior =>
      split
      · next hsibling =>
          have hstored : (s.engineBlockStore.set row.hash row).get? prior =
              s.engineBlockStore.get? prior := JsMap.get?_set_ne _ _ hsibling.2.symm
          rw [hstored]
          split
          · next hdone =>
              refine .inr ⟨fun sibling h => ?_, rfl⟩
              rw [h.2.1] at hdone
              cases hdone
          · next hnew =>
              split
              · next sibling hget =>
                  split
                  · next harmed =>
                      exact .inl ⟨sibling, ⟨harmed, Bool.eq_false_iff.mpr hnew, prior, hprior,
                        hsibling.1, hsibling.2, hget⟩, rfl⟩
                  · next hidle => exact .inr ⟨fun sibling h => hidle h.1, rfl⟩
              · next hnone =>
                  refine .inr ⟨fun sibling h => ?_, rfl⟩
                  obtain ⟨-, -, prior', hprior', -, -, hget⟩ := h
                  rw [hprior, Option.some.injEq] at hprior'
                  rw [← hprior', hnone] at hget
                  cases hget
      · next hsame =>
          refine .inr ⟨fun sibling h => hsame ?_, rfl⟩
          obtain ⟨-, -, prior', hprior', hnamed, hne, -⟩ := h
          rw [hprior, Option.some.injEq] at hprior'
          rw [hprior']
          exact ⟨hnamed, hne⟩
  · next hnone =>
      refine .inr ⟨fun sibling h => ?_, rfl⟩
      obtain ⟨-, -, prior', hprior', -⟩ := h
      rw [hnone] at hprior'
      cases hprior'

theorem AnnouncesWith.unique {row sibling sibling' : StoredBlock F}
    (h : AnnouncesWith s row sibling) (h' : AnnouncesWith s row sibling') :
    sibling = sibling' := by
  obtain ⟨-, -, prior, hprior, -, -, hget⟩ := h
  obtain ⟨-, -, prior', hprior', -, -, hget'⟩ := h'
  rw [hprior, Option.some.injEq] at hprior'
  rw [hprior', hget', Option.some.injEq] at hget
  exact hget.symm

theorem announced_keep (s : ForkArchive F) (row : StoredBlock F) (accountId : Hex) :
    Announced P (s.keep row) accountId ↔
      Announced P s accountId ∨ FirstConvicts P s row accountId := by
  unfold Announced FirstConvicts
  obtain ⟨sibling, hwith, hpublished⟩ | ⟨hnot, hpublished⟩ := published_keep s row
  · rw [hpublished]
    constructor
    · rintro ⟨notice, hnotice, hconvicts⟩
      rcases List.mem_append.mp hnotice with hold | hlast
      · exact .inl ⟨notice, hold, hconvicts⟩
      · rw [List.mem_singleton.mp hlast] at hconvicts
        exact .inr ⟨sibling, hwith, hconvicts⟩
    · rintro (⟨notice, hnotice, hconvicts⟩ | ⟨sibling', hwith', hconvicts⟩)
      · exact ⟨notice, List.mem_append_left _ hnotice, hconvicts⟩
      · rw [hwith'.unique hwith] at hconvicts
        exact ⟨_, List.mem_append_right _ (List.mem_singleton_self _), hconvicts⟩
  · rw [hpublished]
    refine ⟨.inl, fun h => ?_⟩
    rcases h with hold | ⟨sibling, hwith, -⟩
    · exact hold
    · exact absurd hwith (hnot sibling)

theorem forksAnnounced_keep (h : ForksAnnounced P s) (row : StoredBlock F) :
    ForksAnnounced P (s.keep row) ↔
      ∀ (k : Hex) (old : StoredBlock F), k ≠ row.hash → s.engineBlockStore.get? k = some old →
        old.network = row.network → ∀ accountId, Convicts P accountId old.block row.block →
          Announced P s accountId ∨ FirstConvicts P s row accountId := by
  have hstored : ∀ k, (s.keep row).engineBlockStore.get? k =
      if row.hash = k then some row else s.engineBlockStore.get? k := by
    intro k
    rw [engineBlockStore_keep, JsMap.get?_set]
  constructor
  · intro hafter k old hk hold hnetwork accountId hconvicts
    rw [← announced_keep]
    refine hafter k row.hash old row ?_ ?_ hnetwork accountId hconvicts
    · rw [hstored, if_neg hk.symm, hold]
    · rw [hstored, if_pos rfl]
  · intro hforks k k' old old' hold hold' hnetwork accountId hconvicts
    rw [announced_keep]
    rw [hstored] at hold hold'
    split at hold
    · next hk =>
        cases hold
        split at hold'
        · cases hold'
          exact absurd rfl (convicts_iff.mp hconvicts).hash_ne
        · next hk' =>
            exact hforks k' old' (Ne.symm hk') hold' hnetwork.symm accountId hconvicts.symm
    · next hk =>
        split at hold'
        · cases hold'
          exact hforks k old (Ne.symm hk) hold hnetwork accountId hconvicts
        · exact .inl (h k k' old old' hold hold' hnetwork accountId hconvicts)

theorem forksAnnounced_step (h : ForksAnnounced P s) (input : Input F) :
    ForksAnnounced P (step P s input) ↔ ForksWithFirst P s input := by
  obtain ⟨row, hrow, hstep⟩ | ⟨hnone, hstore, hpublished⟩ := step_cases (P := P) s input
  · rw [hstep, forksAnnounced_keep h row]
    unfold ForksWithFirst
    rw [hrow]
    constructor
    · intro hforks row' hsame
      cases hsame
      exact hforks
    · intro hforks
      exact hforks row rfl
  · have hkept : ForksAnnounced P (step P s input) := by
      unfold ForksAnnounced Announced
      rw [hstore, hpublished]
      exact h
    refine iff_of_true hkept fun row hrow => ?_
    rw [hnone] at hrow
    cases hrow

/-! ## Runs -/

/-- Every provable fork in the archive is announced, throughout a run, exactly when every block
that makes one is announced with the first block at its height and the two convict. -/
theorem forks_announced_iff (P : Primitives F) (inputs : List (Input F)) :
    Run.Always (step P) (ForksAnnounced P) new inputs ↔
      Run.StepsMeet (step P) (ForksWithFirst P) new inputs := by
  refine Run.always_iff_stepsMeet (I := fun _ => True) (fun _ _ _ => trivial)
    (fun s input _ h => forksAnnounced_step h input) trivial ?_
  intro h h' row row' hrow
  cases hrow

section Samples

open NeuronWeb.Sample (continuing header)

/-- A second block of an account at height one, after the predecessor and at the time. -/
def aSibling (previousHash : Hex) (timestamp : Int) : Block Rat :=
  let L := EngineLedger.new Sample.primitives
  continuing L { header L "02a" with index := 1, type := .update, previousHash, timestamp }

/-- Whether no announced pair convicts, and some archived one does. -/
def showsSilence (s : ForkArchive Rat) : Bool :=
  (s.published.all fun notice =>
    !verifyDoubleSpend Sample.primitives ⟨notice.a.accountId, notice.a.index,
      notice.a.previousHash, notice.a, notice.b⟩) &&
  s.engineBlockStore.entries.any fun row => s.engineBlockStore.entries.any fun row' =>
    decide (row.2.network = row'.2.network) &&
      verifyDoubleSpend Sample.primitives ⟨row.2.block.accountId, row.2.block.index,
        row.2.block.previousHash, row.2.block, row'.2.block⟩

theorem not_forksAnnounced_of_shows {s : ForkArchive Rat} (h : showsSilence s = true) :
    ¬ ForksAnnounced Sample.primitives s := by
  simp only [showsSilence, Bool.and_eq_true, List.all_eq_true, List.any_eq_true,
    Bool.not_eq_true', decide_eq_true_eq] at h
  obtain ⟨hsilent, ⟨k, row⟩, hrow, ⟨k', row'⟩, hrow', hnetwork, hverify⟩ := h
  intro hannounced
  obtain ⟨notice, hnotice, hconvicts, -⟩ := hannounced k k' row row'
    ((JsMap.get?_eq_some_iff _ _ _).mpr hrow) ((JsMap.get?_eq_some_iff _ _ _).mpr hrow')
    hnetwork _ ⟨hverify, rfl⟩
  rw [hsilent notice hnotice] at hconvicts
  cases hconvicts

/-- Of three siblings the first has another predecessor than the other two: it is announced
with the second, which convicts nobody, and the pair that would is passed over. -/
theorem stale_sibling_silences :
    ¬ ForksAnnounced Sample.primitives (Run.final (step Sample.primitives) new
      [.arm, .gossip (some (aSibling "00" 0)) "testnet",
        .gossip (some (aSibling "01" 1)) "testnet",
        .gossip (some (aSibling "01" 2)) "testnet"]) :=
  not_forksAnnounced_of_shows (by decide +kernel)

end Samples

end ForkArchive

end NeuronWeb
