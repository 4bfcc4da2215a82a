/-
  Ledger/Ahead: a ledger that is ahead of another one by a chain that is still to come.

  Proofs of a chain's blocks let a ledger index blocks that are still to come and record
  already that their account gives a token up.  The ledger accepts the chain all the same
  when the other one does, and with its last block the lead is gone: each block is checked
  against records that the two share, or against a transfer that has been claimed.
-/
import NeuronWeb.Ledger.Outcome
import NeuronWeb.Ledger.Replay
import NeuronWeb.Ledger.TokenView

set_option autoImplicit false

namespace NeuronWeb.EngineLedger

variable {F : Type}

/-! ## What proofs do not touch -/

/-- The ledgers agree on everything but the index of blocks, the custody of tokens and the
transfers on offer. -/
def SameElsewhere (L L' : EngineLedger F) : Prop :=
  ∃ nftOwner nftCustody unclaimedSends unclaimedNftTransfers appliedAt allBlocks,
    L' = { L with nftOwner, nftCustody, unclaimedSends, unclaimedNftTransfers, appliedAt,
                  allBlocks }

/-- The ledgers agree on everything but the transfers on offer and the times at which blocks
were applied. -/
structure SameRecords (L L' : EngineLedger F) : Prop where
  elsewhere : SameElsewhere L L'
  blocks : ∀ hash, L'.allBlocks.get? hash = L.allBlocks.get? hash
  tokens : ∀ tokenId, L'.tokenView tokenId = L.tokenView tokenId

namespace SameElsewhere

variable {L L' L'' : EngineLedger F}

theorem refl (L : EngineLedger F) : SameElsewhere L L := ⟨_, _, _, _, _, _, rfl⟩

section

variable (h : SameElsewhere L L')
include h

theorem trans (h' : SameElsewhere L' L'') : SameElsewhere L L'' := by
  obtain ⟨_, _, _, _, _, _, rfl⟩ := h
  obtain ⟨_, _, _, _, _, _, rfl⟩ := h'
  exact ⟨_, _, _, _, _, _, rfl⟩

theorem held : L'.held = L.held := by
  obtain ⟨_, _, _, _, _, _, rfl⟩ := h
  rfl

theorem equivocated : L'.equivocated = L.equivocated := by
  obtain ⟨_, _, _, _, _, _, rfl⟩ := h
  rfl

theorem burnedNfts : L'.burnedNfts = L.burnedNfts := by
  obtain ⟨_, _, _, _, _, _, rfl⟩ := h
  rfl

theorem nftInfo : L'.nftInfo = L.nftInfo := by
  obtain ⟨_, _, _, _, _, _, rfl⟩ := h
  rfl

theorem claimedNftTransfers : L'.claimedNftTransfers = L.claimedNftTransfers := by
  obtain ⟨_, _, _, _, _, _, rfl⟩ := h
  rfl

theorem providerLedger : L'.providerLedger = L.providerLedger := by
  obtain ⟨_, _, _, _, _, _, rfl⟩ := h
  rfl

theorem recordNftCustody (tokenId x : Hex) (index : Int)
    (holds : Bool) : SameElsewhere (L.recordNftCustody tokenId x index holds)
      (L'.recordNftCustody tokenId x index holds) := by
  obtain ⟨_, _, hL⟩ := recordNftCustody_eq L tokenId x index holds
  obtain ⟨_, _, hL'⟩ := recordNftCustody_eq L' tokenId x index holds
  rw [hL, hL']
  obtain ⟨_, _, _, _, _, _, rfl⟩ := h
  exact ⟨_, _, _, _, _, _, rfl⟩

theorem applyNftMint (b : Block F) : SameElsewhere (L.applyNftMint b) (L'.applyNftMint b) := by
  unfold EngineLedger.applyNftMint
  split
  · split
    · exact h
    · apply recordNftCustody
      obtain ⟨_, _, _, _, _, _, rfl⟩ := h
      exact ⟨_, _, _, _, _, _, rfl⟩
  · exact h

theorem applyNftSend (b : Block F) : SameElsewhere (L.applyNftSend b) (L'.applyNftSend b) := by
  obtain ⟨_, _, _, hL, _⟩ := applyNftSend_eq L b
  obtain ⟨_, _, _, hL', _⟩ := applyNftSend_eq L' b
  rw [hL, hL']
  obtain ⟨_, _, _, _, _, _, rfl⟩ := h
  exact ⟨_, _, _, _, _, _, rfl⟩

theorem claimNftTransfer (source : Option Hex) :
    SameElsewhere (L.claimNftTransfer source) (L'.claimNftTransfer source) := by
  obtain ⟨_, _, _, _, _, _, rfl⟩ := h
  unfold EngineLedger.claimNftTransfer
  split
  · split
    · exact ⟨_, _, _, _, _, _, rfl⟩
    · exact ⟨_, _, _, _, _, _, rfl⟩
  · exact ⟨_, _, _, _, _, _, rfl⟩

theorem applyNftReceive (b : Block F) : SameElsewhere (L.applyNftReceive b)
    (L'.applyNftReceive b) := by
  unfold EngineLedger.applyNftReceive
  split
  · split
    · exact h
    · exact (h.claimNftTransfer b.sourceHash).recordNftCustody _ _ _ _
  · exact h

theorem applyNftBurn (b : Block F) : SameElsewhere (L.applyNftBurn b) (L'.applyNftBurn b) := by
  unfold EngineLedger.applyNftBurn
  split
  · rename_i tokenId _
    split
    · exact h
    · have hburned : SameElsewhere { L with burnedNfts := JsSet.add L.burnedNfts tokenId }
          { L' with burnedNfts := JsSet.add L'.burnedNfts tokenId } := by
        obtain ⟨_, _, _, _, _, _, rfl⟩ := h
        exact ⟨_, _, _, _, _, _, rfl⟩
      obtain ⟨_, _, _, _, _, _, heq⟩ :=
        hburned.recordNftCustody tokenId b.accountId b.index false
      simp only [heq]
      exact ⟨_, _, _, _, _, _, rfl⟩
  · exact h

theorem applyReceive (b : Block F) : SameElsewhere (L.applyReceive b) (L'.applyReceive b) := by
  obtain ⟨_, _, _, _, _, _, rfl⟩ := h
  unfold EngineLedger.applyReceive
  split
  · split
    · exact ⟨_, _, _, _, _, _, rfl⟩
    · exact ⟨_, _, _, _, _, _, rfl⟩
  · exact ⟨_, _, _, _, _, _, rfl⟩

theorem applyUpdate (b : Block F) : SameElsewhere (L.applyUpdate b) (L'.applyUpdate b) := by
  obtain ⟨_, _, _, _, _, _, rfl⟩ := h
  unfold EngineLedger.applyUpdate applyAccountUpdate
  split
  · simp only
    split
    · split
      · exact ⟨_, _, _, _, _, _, rfl⟩
      · exact ⟨_, _, _, _, _, _, rfl⟩
    · exact ⟨_, _, _, _, _, _, rfl⟩
  · exact ⟨_, _, _, _, _, _, rfl⟩

end

/-- The effect of a block reads nothing of what the ledgers may differ in to change what
they agree on. -/
theorem applyBlock [JsNumber F] (P : Primitives F) (h : SameElsewhere L L') (b : Block F) :
    SameElsewhere (applyBlock P L b) (EngineLedger.applyBlock P L' b) := by
  unfold EngineLedger.applyBlock
  cases htype : b.type
  case send =>
    obtain ⟨_, hL, _⟩ := applySend_eq L b
    obtain ⟨_, hL', _⟩ := applySend_eq L' b
    simp only [hL, hL']
    obtain ⟨_, _, _, _, _, _, rfl⟩ := h
    exact ⟨_, _, _, _, _, _, rfl⟩
  case receive => exact h.applyReceive b
  case update => exact h.applyUpdate b
  case nftMint => exact h.applyNftMint b
  case nftSend => exact h.applyNftSend b
  case nftReceive => exact h.applyNftReceive b
  case nftBurn => exact h.applyNftBurn b
  case «open» => exact h
  all_goals
    obtain ⟨_, _, _, _, _, _, rfl⟩ := h
    exact ⟨_, _, _, _, _, _, rfl⟩

theorem appendForeign [JsNumber F] (P : Primitives F) (hsame : SameElsewhere L L') (h : Held F)
    (acc : AccountAccumulator) (b : Block F) (now now' : Int) :
    SameElsewhere (appendForeign P L h acc b now)
      (EngineLedger.appendForeign P L' h acc b now') := by
  have hhold : SameElsewhere (L.hold b.accountId ⟨h.chain ++ [b], acc⟩)
      (L'.hold b.accountId ⟨h.chain ++ [b], acc⟩) := by
    obtain ⟨_, _, _, _, _, _, rfl⟩ := hsame
    exact ⟨_, _, _, _, _, _, rfl⟩
  obtain ⟨_, _, _, _, _, _, heq⟩ := hhold.applyBlock P b
  unfold EngineLedger.appendForeign
  simp only [heq]
  exact ⟨_, _, _, _, _, _, rfl⟩

end SameElsewhere

/-! ## Chains that are still to come -/

/-- The blocks of `x` are in the order of their heights, and none of them is held yet. -/
structure Undelivered (L : EngineLedger F) (x : Hex) (chain : List (Block F)) : Prop where
  account : ∀ b ∈ chain, b.accountId = x
  ordered : chain.Pairwise fun b c => b.index < c.index ∧ c.hash ≠ b.hash
  unheld : ∀ b ∈ chain, ∀ held ∈ L.getAccountChain x, held.hash ≠ b.hash

variable {rest : List (Block F)}

theorem Undelivered.tail {L L₁ : EngineLedger F} {x : Hex} {b : Block F}
    (hchain : Undelivered L x (b :: rest))
    (hgrows : L₁.getAccountChain x = L.getAccountChain x ++ [b]) : Undelivered L₁ x rest := by
  obtain ⟨hfirst, ordered⟩ := List.pairwise_cons.mp hchain.ordered
  refine ⟨fun c hc => hchain.account c (List.mem_cons_of_mem b hc), ordered,
    fun c hc held hheld => ?_⟩
  rw [hgrows] at hheld
  rcases List.mem_append.mp hheld with hold | hnew
  · exact hchain.unheld c (List.mem_cons_of_mem b hc) held hold
  · rw [List.mem_singleton.mp hnew]
    exact (hfirst c hc).2.symm

/-- No block names itself or a later block of the chain as its source. -/
structure SourcesBehind (chain : List (Block F)) : Prop where
  own : ∀ b ∈ chain, b.sourceHash ≠ some b.hash
  later : chain.Pairwise fun b c => b.sourceHash ≠ some c.hash

theorem SourcesBehind.head {b : Block F} (h : SourcesBehind (b :: rest))
    {c : Block F} (hc : c ∈ b :: rest) : b.sourceHash ≠ some c.hash := by
  rcases List.mem_cons.mp hc with rfl | hrest
  · exact h.own c hc
  · exact (List.pairwise_cons.mp h.later).1 c hrest

theorem SourcesBehind.tail {b : Block F} (h : SourcesBehind (b :: rest)) : SourcesBehind rest :=
  ⟨fun c hc => h.own c (List.mem_cons_of_mem b hc), (List.pairwise_cons.mp h.later).2⟩

/-- Up to the block `s` the chain burns the token nowhere, and whatever it sends of it has
been claimed. -/
def ClaimedUpTo (L : EngineLedger F) (chain : List (Block F)) (tokenId : Hex) (s : Block F) :
    Prop :=
  ∀ b ∈ chain, b.index ≤ s.index → b.tokenId = some tokenId →
    b.type ≠ .nftBurn ∧ (b.type = .nftSend → L.claimedNftTransfers.has b.hash = true)

instance (L : EngineLedger F) (chain : List (Block F)) (tokenId : Hex) (s : Block F) :
    Decidable (ClaimedUpTo L chain tokenId s) :=
  inferInstanceAs (Decidable (∀ b ∈ chain, b.index ≤ s.index → b.tokenId = some tokenId →
    b.type ≠ .nftBurn ∧ (b.type = .nftSend → L.claimedNftTransfers.has b.hash = true)))

/-- `L'` has recorded already what the transfer `s` of the chain says. -/
structure GivenUp (chain : List (Block F)) (L L' : EngineLedger F) (tokenId : Hex)
    (s : Block F) : Prop where
  mem : s ∈ chain
  word : wordOn tokenId s = some false
  view : L'.tokenView tokenId =
    (L.tokenView tokenId).record (L.burnedNfts.has tokenId) s.accountId s.index false
  claimed : ClaimedUpTo L chain tokenId s

/-- `L'` has learned blocks of the chain that is still to come, and is `L` otherwise. -/
structure Ahead (chain : List (Block F)) (L L' : EngineLedger F) : Prop where
  elsewhere : SameElsewhere L L'
  blocks : ∀ hash, L'.allBlocks.get? hash = L.allBlocks.get? hash ∨ ∃ b ∈ chain, b.hash = hash
  tokens : ∀ tokenId, L'.tokenView tokenId = L.tokenView tokenId ∨
    ∃ s, GivenUp chain L L' tokenId s

theorem GivenUp.congr {chain : List (Block F)} {L L' L'' : EngineLedger F} {tokenId : Hex}
    {s : Block F} (hs : GivenUp chain L L' tokenId s)
    (hview : L''.tokenView tokenId = L'.tokenView tokenId) : GivenUp chain L L'' tokenId s :=
  ⟨hs.mem, hs.word, hview.trans hs.view, hs.claimed⟩

theorem Ahead.token {chain : List (Block F)} {L L' L'' : EngineLedger F} {tokenId : Hex}
    (h : Ahead chain L L') (hview : L''.tokenView tokenId = L'.tokenView tokenId) :
    L''.tokenView tokenId = L.tokenView tokenId ∨ ∃ s, GivenUp chain L L'' tokenId s := by
  rcases h.tokens tokenId with hlevel | ⟨s, hs⟩
  · exact .inl (hview.trans hlevel)
  · exact .inr ⟨s, hs.congr hview⟩

theorem Ahead.refl (chain : List (Block F)) (L : EngineLedger F) : Ahead chain L L :=
  ⟨.refl L, fun _ => .inl rfl, fun _ => .inl rfl⟩

theorem Ahead.sameRecords {L L' : EngineLedger F} (h : Ahead [] L L') : SameRecords L L' := by
  refine ⟨h.elsewhere, fun hash => ?_, fun tokenId => ?_⟩
  · rcases h.blocks hash with hblock | ⟨b, hb, _⟩
    · exact hblock
    · cases hb
  · rcases h.tokens tokenId with htoken | ⟨s, hs⟩
    · exact htoken
    · cases hs.mem

/-! ## Accepting the next block -/

section Accept

variable {L L' : EngineLedger F} {b : Block F} {rest : List (Block F)}

theorem le_of_mem_ordered
    (ordered : (b :: rest).Pairwise fun b c => b.index < c.index ∧ c.hash ≠ b.hash) {s : Block F}
    (hs : s ∈ b :: rest) : b.index ≤ s.index := by
  rcases List.mem_cons.mp hs with rfl | hrest
  · exact le_refl _
  · exact le_of_lt ((List.pairwise_cons.mp ordered).1 s hrest).1

theorem Ahead.sourceBlock (h : Ahead (b :: rest) L L') (hsources : SourcesBehind (b :: rest)) :
    L'.sourceBlock b.toBlockContent = L.sourceBlock b.toBlockContent := by
  unfold EngineLedger.sourceBlock
  cases hsource : b.sourceHash with
  | none => rfl
  | some source =>
    simp only
    split
    · rfl
    · rcases h.blocks source with heq | ⟨c, hc, hhash⟩
      · exact heq
      · exact absurd (by rw [hsource, hhash]) (hsources.head hc)

theorem Ahead.owner (h : Ahead (b :: rest) L L')
    (ordered : (b :: rest).Pairwise fun b c => b.index < c.index ∧ c.hash ≠ b.hash) :
    L'.nftOwner.get? (b.tokenId.getD "") = L.nftOwner.get? (b.tokenId.getD "") ∨
      truthy b.tokenId = false ∨
      (b.type ≠ .nftBurn ∧ (b.type = .nftSend → L.claimedNftTransfers.has b.hash = true)) := by
  cases htoken : b.tokenId with
  | none => exact .inr (.inl rfl)
  | some token =>
    rcases h.tokens token with hview | ⟨s, hs⟩
    · exact .inl (congrArg TokenView.owner hview)
    · have hle := le_of_mem_ordered ordered hs.mem
      exact .inr (.inr (hs.claimed b List.mem_cons_self hle htoken))

variable [JsNumber F] {P : Primitives F}

/-- A block that the ledger accepts is accepted by one that is ahead of it. -/
theorem Ahead.checkBlock (h : Ahead (b :: rest) L L')
    (ordered : (b :: rest).Pairwise fun b c => b.index < c.index ∧ c.hash ≠ b.hash)
    (hsources : SourcesBehind (b :: rest)) {head : Block F}
    (hchecked : checkBlock P L head b = none) :
    EngineLedger.checkBlock P L' head b = none := by
  have hsource := h.sourceBlock hsources
  unfold EngineLedger.checkBlock at hchecked ⊢
  cases htype : b.type <;> simp only [htype] at hchecked ⊢
  case update => exact hchecked
  case send => exact hchecked
  case receive =>
    unfold checkReceive at hchecked ⊢
    rw [hsource]
    exact hchecked
  case nftMint =>
    unfold checkNftMint at hchecked ⊢
    rw [h.elsewhere.nftInfo, h.elsewhere.burnedNfts]
    exact hchecked
  case nftSend =>
    unfold checkNftSend at hchecked ⊢
    rw [h.elsewhere.claimedNftTransfers]
    rcases h.owner ordered with howner | htoken | ⟨_, hclaimed⟩
    · rw [howner]
      exact hchecked
    · simp only [htoken] at hchecked ⊢
      exact hchecked
    · simp only [hclaimed htype, Bool.true_eq_false, and_false, if_false] at hchecked ⊢
      exact hchecked
  case nftReceive =>
    unfold checkNftReceive at hchecked ⊢
    rw [hsource]
    exact hchecked
  case nftBurn =>
    unfold checkNftBurn at hchecked ⊢
    rcases h.owner ordered with howner | htoken | ⟨hburn, _⟩
    · rw [howner]
      exact hchecked
    · simp only [htoken] at hchecked ⊢
      exact hchecked
    · exact absurd htype hburn
  case storageSettle =>
    unfold checkStorageSettle at hchecked ⊢
    rw [h.elsewhere.providerLedger]
    exact hchecked
  all_goals
    unfold checkStorage at hchecked ⊢
    rw [h.elsewhere.providerLedger]
    exact hchecked

end Accept

/-! ## After the next block -/

section Append

variable [JsNumber F] {P : Primitives F} {L L' : EngineLedger F} {b : Block F}
  {rest : List (Block F)}

theorem burnedNfts_applyBlock {tokenId : Hex} (h : b.type = .nftBurn → wordOn tokenId b = none) :
    (applyBlock P L b).burnedNfts.has tokenId = L.burnedNfts.has tokenId := by
  unfold applyBlock
  cases htype : b.type
  case send =>
    obtain ⟨_, heq, _⟩ := applySend_eq L b
    simp [heq]
  case receive =>
    obtain ⟨_, _, heq, _⟩ := applyReceive_eq L b
    simp [heq]
  case update =>
    obtain ⟨_, _, heq⟩ := applyUpdate_eq L b
    simp [heq]
  case nftMint =>
    obtain ⟨_, _, _, heq⟩ := applyNftMint_eq L b
    simp [heq]
  case nftSend =>
    obtain ⟨_, _, _, heq, _⟩ := applyNftSend_eq L b
    simp [heq]
  case nftReceive =>
    obtain ⟨_, _, _, _, heq, _⟩ := applyNftReceive_eq L b
    simp [heq]
  case nftBurn =>
    rcases applyNftBurn_cases L htype with ⟨_, heq⟩ | ⟨token, hword, heq⟩
    · simp [heq]
    · have hne : token ≠ tokenId := by
        rintro rfl
        rw [h htype] at hword
        cases hword
      simp only at heq
      simp [heq, JsSet.has_add, hne]
  all_goals rfl

variable {h : Held F} {acc : AccountAccumulator} {now : Int}

theorem tokenView_appendForeign (tokenId : Hex) :
    (appendForeign P L h acc b now).tokenView tokenId =
      (L.tokenView tokenId).after (L.burnedNfts.has tokenId) tokenId b :=
  tokenView_applyBlock P (L.hold b.accountId ⟨h.chain ++ [b], acc⟩) b tokenId

theorem burnedNfts_appendForeign {tokenId : Hex}
    (hburn : b.type = .nftBurn → wordOn tokenId b = none) :
    (appendForeign P L h acc b now).burnedNfts.has tokenId = L.burnedNfts.has tokenId :=
  burnedNfts_applyBlock (L := L.hold b.accountId ⟨h.chain ++ [b], acc⟩) hburn

theorem allBlocks_appendForeign (hash : Hex) :
    (appendForeign P L h acc b now).allBlocks.get? hash =
      if b.hash = hash then some b else L.allBlocks.get? hash := by
  have hsame := applyBlock_sameChains P (L.hold b.accountId ⟨h.chain ++ [b], acc⟩) b
  unfold appendForeign indexBlock
  simp only [hsame.allBlocks, JsMap.get?_set]
  rfl

theorem ClaimedUpTo.appendForeign {tokenId : Hex} {s : Block F}
    (hclaimed : ClaimedUpTo L (b :: rest) tokenId s) :
    ClaimedUpTo (appendForeign P L h acc b now) rest tokenId s := by
  intro c hc hindex htoken
  obtain ⟨hburn, hsend⟩ := hclaimed c (List.mem_cons_of_mem b hc) hindex htoken
  have heffect := applyBlock_claimEffect P (L.hold b.accountId ⟨h.chain ++ [b], acc⟩) b
  exact ⟨hburn, fun htype => heffect.keepsNfts c.hash (hsend htype)⟩

/-- The lead over a token is kept by a block before the transfer, and closed by the
transfer. -/
theorem GivenUp.appendForeign {tokenId : Hex} {s : Block F} {now' : Int}
    (hs : GivenUp (b :: rest) L L' tokenId s)
    (elsewhere : SameElsewhere L L') (account : b.accountId = s.accountId)
    (ordered : (b :: rest).Pairwise fun b c => b.index < c.index ∧ c.hash ≠ b.hash) :
    (EngineLedger.appendForeign P L' h acc b now').tokenView tokenId =
        (EngineLedger.appendForeign P L h acc b now).tokenView tokenId ∨
      GivenUp rest (EngineLedger.appendForeign P L h acc b now)
        (EngineLedger.appendForeign P L' h acc b now') tokenId s := by
  have hle := le_of_mem_ordered ordered hs.mem
  have hburn : b.type = .nftBurn → wordOn tokenId b = none := by
    intro htype
    cases hword : wordOn tokenId b with
    | none => rfl
    | some holds =>
      have htoken := (wordOn_eq_some.mp hword).1
      exact absurd htype (hs.claimed b List.mem_cons_self hle htoken).1
  have hviews : (EngineLedger.appendForeign P L' h acc b now').tokenView tokenId =
      ((L.tokenView tokenId).record (L.burnedNfts.has tokenId) s.accountId s.index false).after
        (L.burnedNfts.has tokenId) tokenId b := by
    rw [tokenView_appendForeign, elsewhere.burnedNfts, hs.view]
  rw [hviews, tokenView_appendForeign]
  cases hword : wordOn tokenId b with
  | none =>
    rw [TokenView.after_of_silent _ _ hword, TokenView.after_of_silent _ _ hword]
    have hmem : s ∈ rest := by
      rcases List.mem_cons.mp hs.mem with rfl | hmem
      · rw [hs.word] at hword
        cases hword
      · exact hmem
    refine .inr ⟨hmem, hs.word, ?_, hs.claimed.appendForeign⟩
    rw [hviews, tokenView_appendForeign, burnedNfts_appendForeign hburn,
      TokenView.after_of_silent _ _ hword, TokenView.after_of_silent _ _ hword]
  | some holds =>
    have htype : b.type ≠ .nftBurn := by
      intro htype
      rw [hburn htype] at hword
      cases hword
    have hafter : ∀ v : TokenView, v.after (L.burnedNfts.has tokenId) tokenId b =
        v.record (L.burnedNfts.has tokenId) s.accountId b.index holds := by
      intro v
      simp [TokenView.after, hword, htype, account]
    rw [hafter, hafter, TokenView.record_of_le _ _ _ _ _ _ hle]
    rcases List.mem_cons.mp hs.mem with rfl | hmem
    · -- the transfer itself: its word is the one that was recorded early
      rw [hs.word] at hword
      cases hword
      exact .inl rfl
    · have hlt := ((List.pairwise_cons.mp ordered).1 s hmem).1
      refine .inr ⟨hmem, hs.word, ?_, hs.claimed.appendForeign⟩
      rw [hviews, tokenView_appendForeign, burnedNfts_appendForeign hburn, hafter, hafter,
        TokenView.record_of_le _ _ _ _ _ _ hle, TokenView.record_false_of_lt _ _ _ _ hlt]

theorem Ahead.appendForeign {now' : Int} (hahead : Ahead (b :: rest) L L')
    (account : ∀ c ∈ rest, c.accountId = b.accountId)
    (ordered : (b :: rest).Pairwise fun b c => b.index < c.index ∧ c.hash ≠ b.hash) :
    Ahead rest (EngineLedger.appendForeign P L h acc b now)
      (EngineLedger.appendForeign P L' h acc b now') := by
  refine ⟨hahead.elsewhere.appendForeign P h acc b now now', fun hash => ?_, fun tokenId => ?_⟩
  · rw [allBlocks_appendForeign, allBlocks_appendForeign]
    by_cases hhash : b.hash = hash
    · simp [hhash]
    · rw [if_neg hhash, if_neg hhash]
      rcases hahead.blocks hash with heq | ⟨c, hc, hsource⟩
      · exact .inl heq
      · rcases List.mem_cons.mp hc with rfl | hc
        · exact absurd hsource hhash
        · exact .inr ⟨c, hc, hsource⟩
  · rcases hahead.tokens tokenId with heq | ⟨s, hs⟩
    · left
      rw [tokenView_appendForeign, tokenView_appendForeign, heq, hahead.elsewhere.burnedNfts]
    · have hsame : b.accountId = s.accountId := by
        rcases List.mem_cons.mp hs.mem with rfl | hmem
        · rfl
        · exact (account s hmem).symm
      exact (hs.appendForeign hahead.elsewhere hsame ordered).imp_right fun h => ⟨s, h⟩

end Append

/-! ## Delivering the chain -/

section Deliver

variable [JsNumber F] {P : Primitives F} {L L' : EngineLedger F} {b : Block F} {now : Int}

/-- The next block of the chain is accepted by a ledger that is ahead, which stays ahead by
the rest of it. -/
theorem Ahead.addBlock {L₁ : EngineLedger F} {rest : List (Block F)}
    (h : Ahead (b :: rest) L L') (hchain : Undelivered L b.accountId (b :: rest))
    (hsources : SourcesBehind (b :: rest)) (hadd : addBlock P L b now = (L₁, .success))
    (now' : Int) : ∃ L₁', EngineLedger.addBlock P L' b now' = (L₁', .success) ∧
      Ahead rest L₁ L₁' ∧
      L₁.getAccountChain b.accountId = L.getAccountChain b.accountId ++ [b] := by
  have haccount : ∀ c ∈ rest, c.accountId = b.accountId :=
    fun c hc => hchain.account c (List.mem_cons_of_mem b hc)
  have outcome := addBlock_outcome P L b now
  rw [hadd] at outcome
  have hauthentic : Authentic P L b → Authentic P L' b := by
    intro authentic
    exact ⟨authentic.hash, authentic.signature, by
      rw [h.elsewhere.equivocated]
      exact authentic.notFrozen⟩
  cases outcome with
  | unchanged r known =>
    obtain ⟨held, existing, known⟩ := known rfl
    have hmem : existing ∈ L.getAccountChain b.accountId := by
      rw [getAccountChain_of_held known.stored]
      exact known.mem
    exact absurd known.hash (hchain.unheld b List.mem_cons_self existing hmem)
  | emptied r authentic opens refused => exact absurd rfl refused
  | opened acc authentic opens root =>
    have opens' : OpensChain L' b :=
      ⟨opens.index, opens.type, opens.previousHash, opens.balance, by
        rw [h.elsewhere.held]
        exact opens.fresh⟩
    have hhold : Ahead (b :: rest) (L.hold b.accountId ⟨[], []⟩)
        (L'.hold b.accountId ⟨[], []⟩) := by
      refine ⟨?_, h.blocks, fun t => (h.tokens t).imp_right fun ⟨s, hs⟩ => ⟨s, hs.mem, hs.word,
        hs.view, hs.claimed⟩⟩
      obtain ⟨_, _, _, _, _, _, rfl⟩ := h.elsewhere
      exact ⟨_, _, _, _, _, _, rfl⟩
    refine ⟨_, addBlock_opens now' (hauthentic authentic) opens' root, ?_, ?_⟩
    · exact hhold.appendForeign haccount hchain.ordered
    · rw [getAccountChain_appendForeign, if_pos rfl]
      simp [getAccountChain, opens.fresh]
  | extended held head acc authentic links checked root =>
    have links' : Links L' held head b :=
      ⟨by
        rw [h.elsewhere.held]
        exact links.stored, links.last, links.index_ne_zero, links.index, links.previousHash⟩
    have checked' := h.checkBlock hchain.ordered hsources checked
    exact ⟨_, addBlock_extends now' (hauthentic authentic) links' checked' root,
      h.appendForeign haccount hchain.ordered, by
        simp [getAccountChain_appendForeign, getAccountChain_of_held links.stored]⟩

/-- A ledger that is ahead by the chain accepts it, and has the same records in the end. -/
theorem Ahead.replay {x : Hex} {delivered delivered' : List (Block F × Int)}
    {L₁ : EngineLedger F} (h : Ahead (delivered.map Prod.fst) L L')
    (hchain : Undelivered L x (delivered.map Prod.fst))
    (hsources : SourcesBehind (delivered.map Prod.fst))
    (hsame : delivered'.map Prod.fst = delivered.map Prod.fst)
    (hreplay : replay P L delivered = some L₁) :
    ∃ L₁', EngineLedger.replay P L' delivered' = some L₁' ∧ SameRecords L₁ L₁' := by
  induction delivered generalizing L L' delivered' with
  | nil =>
    have hnil : delivered' = [] := by simpa using hsame
    subst hnil
    cases hreplay
    exact ⟨L', rfl, h.sameRecords⟩
  | cons entry rest ih =>
    obtain ⟨b, now⟩ := entry
    obtain ⟨⟨b', now'⟩, rest', rfl, hb, hrest⟩ := List.map_eq_cons_iff.mp hsame
    simp only at hb
    subst hb
    have haccount : b'.accountId = x := hchain.account b' List.mem_cons_self
    subst haccount
    simp only [EngineLedger.replay] at hreplay
    split at hreplay
    · rename_i L₂ hadd
      obtain ⟨L₂', hadd', hahead, hgrows⟩ := h.addBlock hchain hsources hadd now'
      obtain ⟨L₁', hreplay', hrecords⟩ :=
        ih hahead (hchain.tail hgrows) hsources.tail hrest hreplay
      refine ⟨L₁', ?_, hrecords⟩
      simp only [EngineLedger.replay, hadd']
      exact hreplay'
    · cases hreplay

end Deliver

end NeuronWeb.EngineLedger
