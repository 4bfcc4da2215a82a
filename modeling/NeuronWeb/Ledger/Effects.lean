/-
  Ledger/Effects: which maps the effect of a block touches.

  Every helper that applies a block is summarised once, by the fields it can change.
  The frame lemmas are read off the summaries and are all that later modules use.
-/
import NeuronWeb.Ledger.AddBlock

set_option autoImplicit false

namespace NeuronWeb.EngineLedger

variable {F : Type}

/-! ## Chains -/

@[simp] theorem getAccountChain_hold (L : EngineLedger F) (pub : Hex) (h : Held F) (x : Hex) :
    (L.hold pub h).getAccountChain x = if pub = x then h.chain else L.getAccountChain x := by
  unfold getAccountChain hold
  rw [JsMap.get?_set]
  split <;> rfl

theorem getAccountChain_of_held {L : EngineLedger F} {pub : Hex} {h : Held F}
    (hheld : L.held.get? pub = some h) : L.getAccountChain pub = h.chain := by
  simp [getAccountChain, hheld]

theorem getAccountChain_congr {L L' : EngineLedger F} (h : L'.held = L.held) (x : Hex) :
    L'.getAccountChain x = L.getAccountChain x := by
  rw [getAccountChain, h, getAccountChain]

theorem getAccountHead_eq (L : EngineLedger F) (x : Hex) :
    L.getAccountHead x = (L.getAccountChain x).getLast? := rfl

theorem heldHead_eq_some {L : EngineLedger F} {pub : Hex} {h : Held F} {head : Block F} :
    L.heldHead pub = some (h, head) ↔
      L.held.get? pub = some h ∧ h.chain.getLast? = some head := by
  unfold heldHead
  cases L.held.get? pub with
  | none => simp
  | some h' =>
    simp only [Option.bind_some, Option.map_eq_some_iff, Prod.mk.injEq, Option.some.injEq]
    constructor
    · rintro ⟨head', hlast, rfl, rfl⟩
      exact ⟨rfl, hlast⟩
    · rintro ⟨rfl, hlast⟩
      exact ⟨head, hlast, rfl, rfl⟩

/-! ## Custody -/

section

variable (L : EngineLedger F)

theorem recomputeNftOwner_eq (tokenId : Hex) :
    ∃ nftOwner, L.recomputeNftOwner tokenId = { L with nftOwner } := by
  unfold recomputeNftOwner
  split
  · exact ⟨_, rfl⟩
  · split
    · exact ⟨L.nftOwner, rfl⟩
    · split
      · exact ⟨_, rfl⟩
      · exact ⟨_, rfl⟩
      · simp only
        split
        · split
          · exact ⟨_, rfl⟩
          · exact ⟨L.nftOwner, rfl⟩
        · exact ⟨_, rfl⟩

theorem recordNftCustody_eq (tokenId accountId : Hex) (index : Int)
    (holds : Bool) : ∃ nftOwner nftCustody,
      L.recordNftCustody tokenId accountId index holds = { L with nftOwner, nftCustody } := by
  unfold recordNftCustody
  simp only
  split
  · obtain ⟨nftOwner, h⟩ := recomputeNftOwner_eq _ tokenId
    exact ⟨nftOwner, _, h⟩
  · exact ⟨L.nftOwner, L.nftCustody, rfl⟩

/-! ## Effects of the block types -/

theorem applyNftMint_eq (b : Block F) : ∃ nftOwner nftCustody nftInfo,
    L.applyNftMint b = { L with nftOwner, nftCustody, nftInfo } := by
  unfold applyNftMint
  split
  · split
    · exact ⟨_, _, _, rfl⟩
    · obtain ⟨nftOwner, nftCustody, h⟩ := recordNftCustody_eq
        { L with nftInfo := L.nftInfo.set _ (mintInfo b.toBlockContent _) } _ b.accountId b.index
        true
      exact ⟨nftOwner, nftCustody, _, h⟩
  · exact ⟨_, _, _, rfl⟩

/-- A transfer that is still on offer after the effect of an `nft-send` was on offer
before, or is the block's own. -/
theorem applyNftSend_eq (b : Block F) :
    ∃ nftOwner nftCustody unclaimedNftTransfers,
      L.applyNftSend b = { L with nftOwner, nftCustody, unclaimedNftTransfers } ∧
      ∀ hash t, unclaimedNftTransfers.get? hash = some t →
        L.unclaimedNftTransfers.get? hash = some t ∨
          (hash = b.hash ∧ t.fromPub = b.accountId ∧ t.tokenId ≠ "" ∧
            L.claimedNftTransfers.has hash = false) := by
  unfold applyNftSend
  split
  · rename_i tokenId recipient _ _
    split
    · exact ⟨_, _, _, rfl, fun _ _ h => .inl h⟩
    · rename_i hfields
      obtain ⟨nftOwner, nftCustody, h⟩ :=
        recordNftCustody_eq L tokenId b.accountId b.index false
      simp only [h]
      split
      · exact ⟨_, _, _, rfl, fun _ _ h => .inl h⟩
      · rename_i hclaimed
        refine ⟨_, _, _, rfl, fun hash t ht => ?_⟩
        rw [JsMap.get?_set] at ht
        split at ht
        · rename_i hhash
          cases ht
          exact .inr ⟨hhash.symm, rfl, fun h => hfields (.inl h), by simpa [← hhash] using hclaimed⟩
        · exact .inl ht
  · exact ⟨_, _, _, rfl, fun _ _ h => .inl h⟩

theorem claimNftTransfer_eq (source : Option Hex) :
    ∃ claimedNftTransfers unclaimedNftTransfers,
      L.claimNftTransfer source = { L with claimedNftTransfers, unclaimedNftTransfers } ∧
      (∀ hash t, unclaimedNftTransfers.get? hash = some t →
        L.unclaimedNftTransfers.get? hash = some t ∧ ¬(source = some hash ∧ hash ≠ "")) ∧
      ∀ hash, claimedNftTransfers.has hash = true ↔
        L.claimedNftTransfers.has hash = true ∨ (source = some hash ∧ hash ≠ "") := by
  unfold claimNftTransfer
  split
  · rename_i source
    split
    · rename_i hsource
      refine ⟨_, _, rfl, fun _ _ h => ⟨h, fun hs => hs.2 (Option.some.inj hs.1 ▸ hsource)⟩,
        fun hash => ?_⟩
      simp only [Option.some.injEq]
      constructor
      · exact .inl
      · rintro (h | ⟨rfl, hne⟩)
        · exact h
        · exact absurd hsource hne
    · rename_i hsource
      refine ⟨_, _, rfl, fun _ _ h => ?_, fun hash => ?_⟩
      · obtain ⟨hne, hget⟩ := JsMap.get?_of_get?_delete h
        exact ⟨hget, fun hs => hne (Option.some.inj hs.1)⟩
      simp only [JsSet.has_add, Bool.or_eq_true, decide_eq_true_eq, Option.some.injEq]
      constructor
      · rintro (rfl | h)
        · exact .inr ⟨rfl, hsource⟩
        · exact .inl h
      · rintro (h | ⟨rfl, _⟩)
        · exact .inr h
        · exact .inl rfl
  · exact ⟨_, _, rfl, fun _ _ h => ⟨h, by simp⟩, fun hash => by simp⟩

theorem applyNftReceive_eq (b : Block F) :
    ∃ nftOwner nftCustody claimedNftTransfers unclaimedNftTransfers,
      L.applyNftReceive b =
        { L with nftOwner, nftCustody, claimedNftTransfers, unclaimedNftTransfers } ∧
      (∀ hash t, unclaimedNftTransfers.get? hash = some t →
        L.unclaimedNftTransfers.get? hash = some t ∧
          ¬(truthy b.tokenId = true ∧ b.sourceHash = some hash ∧ hash ≠ "")) ∧
      ∀ hash, claimedNftTransfers.has hash = true ↔
        L.claimedNftTransfers.has hash = true ∨
          (truthy b.tokenId = true ∧ b.sourceHash = some hash ∧ hash ≠ "") := by
  unfold applyNftReceive
  cases htoken : b.tokenId with
  | none =>
    exact ⟨_, _, _, _, rfl, fun _ _ h => ⟨h, by simp [truthy]⟩, fun hash => by simp [truthy]⟩
  | some tokenId =>
    simp only
    split
    · rename_i hempty
      exact ⟨_, _, _, _, rfl, fun _ _ h => ⟨h, by simp [truthy, hempty]⟩,
        fun hash => by simp [truthy, hempty]⟩
    · rename_i hne
      obtain ⟨claimed, unclaimed, hclaim, hoffers, hclaimed⟩ :=
        claimNftTransfer_eq L b.sourceHash
      obtain ⟨nftOwner, nftCustody, h⟩ := recordNftCustody_eq
        (L.claimNftTransfer b.sourceHash) tokenId b.accountId b.index true
      refine ⟨nftOwner, nftCustody, claimed, unclaimed, ?_, fun hash t ht => ?_, fun hash => ?_⟩
      · rw [h, hclaim]
      · obtain ⟨hget, hnot⟩ := hoffers hash t ht
        exact ⟨hget, fun hs => hnot hs.2⟩
      · rw [hclaimed]
        simp [truthy, hne]

theorem applyNftBurn_eq (b : Block F) :
    ∃ nftOwner nftCustody burnedNfts,
      L.applyNftBurn b = { L with nftOwner, nftCustody, burnedNfts } := by
  unfold applyNftBurn
  split
  · rename_i tokenId _
    split
    · exact ⟨_, _, _, rfl⟩
    · obtain ⟨nftOwner, nftCustody, h⟩ := recordNftCustody_eq
        { L with burnedNfts := JsSet.add L.burnedNfts tokenId } tokenId b.accountId b.index false
      simp only [h]
      exact ⟨_, _, _, rfl⟩
  · exact ⟨_, _, _, rfl⟩

theorem applyAccountUpdate_eq (pub : Hex)
    (updates : List (String × String)) : ∃ accountsByPub usernameToPub,
      L.applyAccountUpdate pub updates = { L with accountsByPub, usernameToPub } := by
  unfold applyAccountUpdate
  split
  · split
    · exact ⟨_, _, rfl⟩
    · exact ⟨_, _, rfl⟩
  · exact ⟨_, _, rfl⟩

end

/-! ## What an appended block leaves alone -/

section Frames

variable (L : EngineLedger F) (b : Block F)

theorem applyReceive_eq : ∃ claimedSends unclaimedSends,
    L.applyReceive b = { L with claimedSends, unclaimedSends } ∧
    (∀ hash s, unclaimedSends.get? hash = some s → L.unclaimedSends.get? hash = some s) ∧
    ∀ hash, claimedSends.has hash = true ↔
      L.claimedSends.has hash = true ∨ (b.sourceHash = some hash ∧ hash ≠ "") := by
  unfold applyReceive
  cases hsource : b.sourceHash with
  | none => exact ⟨_, _, rfl, fun _ _ h => h, fun hash => by simp⟩
  | some source =>
    simp only
    split
    · rename_i hempty
      refine ⟨_, _, rfl, fun _ _ h => h, fun hash => ?_⟩
      simp only [Option.some.injEq]
      constructor
      · exact .inl
      · rintro (h | ⟨rfl, hne⟩)
        · exact h
        · exact absurd hempty hne
    · rename_i hne
      refine ⟨_, _, rfl, fun _ _ h => (JsMap.get?_of_get?_delete h).2, fun hash => ?_⟩
      simp only [JsSet.has_add, Bool.or_eq_true, decide_eq_true_eq, Option.some.injEq]
      constructor
      · rintro (rfl | h)
        · exact .inr ⟨rfl, hne⟩
        · exact .inl h
      · rintro (h | ⟨rfl, _⟩)
        · exact .inr h
        · exact .inl rfl

theorem applyUpdate_eq : ∃ accountsByPub usernameToPub,
    L.applyUpdate b = { L with accountsByPub, usernameToPub } := by
  unfold applyUpdate
  split
  · exact applyAccountUpdate_eq L b.accountId _
  · exact ⟨_, _, rfl⟩

/-- The fields no block's effect touches. -/
structure SameChains (L L' : EngineLedger F) : Prop where
  held : L'.held = L.held
  equivocated : L'.equivocated = L.equivocated
  identity : L'.identity = L.identity
  validatorRegistry : L'.validatorRegistry = L.validatorRegistry
  seeds : L'.seeds = L.seeds
  epoch : L'.epoch = L.epoch
  committee : L'.committee = L.committee
  epochWeightSnapshots : L'.epochWeightSnapshots = L.epochWeightSnapshots
  allBlocks : L'.allBlocks = L.allBlocks
  appliedAt : L'.appliedAt = L.appliedAt

end Frames

section Frames

variable [JsNumber F] (P : Primitives F) (L : EngineLedger F) (b : Block F)

theorem applySend_eq : ∃ unclaimedSends, L.applySend b = { L with unclaimedSends } ∧
    ∀ hash s, unclaimedSends.get? hash = some s →
      L.unclaimedSends.get? hash = some s ∨ (hash = b.hash ∧ s.fromPub = b.accountId) := by
  unfold applySend
  split
  · split
    · exact ⟨_, rfl, fun _ _ h => .inl h⟩
    · refine ⟨_, rfl, fun hash s hs => ?_⟩
      rw [JsMap.get?_set] at hs
      split at hs
      · rename_i hhash
        cases hs
        exact .inr ⟨hhash.symm, rfl⟩
      · exact .inl hs
  · exact ⟨_, rfl, fun _ _ h => .inl h⟩

/-- The effect of a block leaves the chains, the freezes and the consensus state alone. -/
theorem applyBlock_sameChains : SameChains L (applyBlock P L b) := by
  unfold applyBlock
  cases b.type
  case send =>
    obtain ⟨_, h, _⟩ := applySend_eq L b
    constructor <;> simp [h]
  case receive =>
    obtain ⟨_, _, h, _⟩ := applyReceive_eq L b
    constructor <;> simp [h]
  case update =>
    obtain ⟨_, _, h⟩ := applyUpdate_eq L b
    constructor <;> simp [h]
  case nftMint =>
    obtain ⟨_, _, _, h⟩ := applyNftMint_eq L b
    constructor <;> simp [h]
  case nftSend =>
    obtain ⟨_, _, _, h, _⟩ := applyNftSend_eq L b
    constructor <;> simp [h]
  case nftReceive =>
    obtain ⟨_, _, _, _, h, _⟩ := applyNftReceive_eq L b
    constructor <;> simp [h]
  case nftBurn =>
    obtain ⟨_, _, _, h⟩ := applyNftBurn_eq L b
    constructor <;> simp [h]
  all_goals constructor <;> rfl

@[simp] theorem held_applyBlock : (applyBlock P L b).held = L.held :=
  (applyBlock_sameChains P L b).held

@[simp] theorem equivocated_applyBlock : (applyBlock P L b).equivocated = L.equivocated :=
  (applyBlock_sameChains P L b).equivocated

theorem getAccountChain_appendForeign (h : Held F) (acc : AccountAccumulator) (now : Int)
    (x : Hex) : (appendForeign P L h acc b now).getAccountChain x =
      if b.accountId = x then h.chain ++ [b] else L.getAccountChain x := by
  have hheld : (appendForeign P L h acc b now).held =
      (L.hold b.accountId ⟨h.chain ++ [b], acc⟩).held := by
    simp [appendForeign, indexBlock]
  rw [getAccountChain_congr hheld, getAccountChain_hold]

@[simp] theorem equivocated_appendForeign (h : Held F) (acc : AccountAccumulator)
    (now : Int) : (appendForeign P L h acc b now).equivocated = L.equivocated := by
  simp [appendForeign, indexBlock, hold]

end Frames

/-! ## Freezing -/

theorem freezeEquivocator_held (L : EngineLedger F) (ev : DoubleSpendEvidence F) :
    (L.freezeEquivocator ev).1.held = L.held := by
  unfold freezeEquivocator
  split <;> rfl

theorem flagEquivocation_held (L : EngineLedger F) (a b : Block F) :
    (L.flagEquivocation a b).held = L.held := by
  unfold flagEquivocation
  split
  · exact freezeEquivocator_held L _
  · rfl

@[simp] theorem getAccountChain_flagFork (L : EngineLedger F) (a b : Block F) (x : Hex) :
    (L.flagFork a b).getAccountChain x = L.getAccountChain x :=
  getAccountChain_congr (by simp [flagFork, indexBlock, flagEquivocation_held]) x

end NeuronWeb.EngineLedger
