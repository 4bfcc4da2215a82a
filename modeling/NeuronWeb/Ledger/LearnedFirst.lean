/-
  Ledger/LearnedFirst: blocks that are learned from proofs before they are delivered.

  Claims on proofs write the records that the delivery of a chain is checked against.  They
  do no harm as long as nothing that was learned is a reason to refuse: no mint goes on
  record before its block, and no word on a token that is newer than an unclaimed transfer
  or a burn still to come.
-/
import NeuronWeb.Ledger.Ahead

set_option autoImplicit false

namespace NeuronWeb.EngineLedger

variable {F : Type}

/-! ## Learning blocks of the chain -/

/-- The block a call learns from a proof. -/
def Call.learns : Call F → Option (Block F)
  | .registerVerifiedMint proof _ => some proof.mintBlock
  | .registerVerifiedSend packet _ => some packet.sendBlock
  | .restoreVerifiedBlock block => some block
  | _ => none

/-- The call leaves nothing behind that speaks against a block of the chain: no mint goes on
record, and a restored transfer of a token is one that newer records cover, or the chain has
nothing unclaimed to say on the token up to it.  A registered transfer is never a reason to
refuse. -/
def SparesChain (P : Primitives F) (cfg : LedgerConfig) (chain : List (Block F))
    (L : EngineLedger F) : Call F → Prop
  | .registerVerifiedMint proof tokenId =>
    L.nftInfo.has tokenId = true ∨ L.equivocated.has proof.mintBlock.accountId = true ∨
      L.burnedNfts.has tokenId = true ∨
      verifyMintProof P proof tokenId cfg.identityPolicy ≠ some none
  | .restoreVerifiedBlock block =>
    ∀ tokenId, block.tokenId = some tokenId →
      (block.type = .nftMint →
        L.nftInfo.has tokenId = true ∨ L.burnedNfts.has tokenId = true) ∧
      (block.type = .nftSend →
        supersedes (L.tokenView tokenId).perAccount block.accountId block.index = false ∨
          ClaimedUpTo L chain tokenId block)
  | _ => True

/-- The call learns a block of the chain from a proof and spares the chain. -/
def LearnsSafely (P : Primitives F) (cfg : LedgerConfig) (chain : List (Block F))
    (L : EngineLedger F) (c : Call F) : Prop :=
  (∃ b ∈ chain, c.learns = some b) ∧ SparesChain P cfg chain L c

section Learn

variable {P : Primitives F} {cfg : LedgerConfig} {chain : List (Block F)}
  {L L' : EngineLedger F} {b : Block F}

variable [JsNumber F]

/-- Restoring a block that spares the chain does nothing, indexes it, or records that its
account gives a token up. -/
theorem restoreVerifiedBlock_spared
    (h : SparesChain P cfg chain L (.restoreVerifiedBlock b)) :
    (restoreVerifiedBlock P L b).1 = L ∨
      (∃ unclaimedSends,
        (restoreVerifiedBlock P L b).1 = { L.indexBlock b with unclaimedSends }) ∨
      (b.type = .nftSend ∧ (restoreVerifiedBlock P L b).1 = (L.indexBlock b).applyNftSend b) := by
  have outcome := restoreVerifiedBlock_outcome P L b
  generalize (restoreVerifiedBlock P L b).1 = L' at outcome ⊢
  cases outcome with
  | refused => exact .inl rfl
  | indexed => exact .inr (.inl ⟨_, rfl⟩)
  | mint verified type token unknown unburned info =>
    have hspares := (h _ token).1 type
    simp [unknown, unburned] at hspares
  | nftSend verified type => exact .inr (.inr ⟨type, rfl⟩)
  | send => exact .inr (.inl ⟨_, rfl⟩)

omit [JsNumber F] in
theorem Ahead.index (h : Ahead chain L L') (hmem : b ∈ chain)
    (unclaimedSends : JsMap Hex (UnclaimedSend F))
    (unclaimedNftTransfers : JsMap Hex UnclaimedNft) :
    Ahead chain L { L'.indexBlock b with unclaimedSends, unclaimedNftTransfers } := by
  refine ⟨?_, fun hash => ?_, fun t => h.token rfl⟩
  · exact h.elsewhere.trans ⟨_, _, _, _, _, _, rfl⟩
  · simp only [indexBlock, JsMap.get?_set]
    by_cases hhash : b.hash = hash
    · exact .inr ⟨b, hmem, hhash⟩
    · rw [if_neg hhash]
      exact h.blocks hash

omit [JsNumber F] in
/-- Recording early that the account gives a token up. -/
theorem Ahead.applyNftSend {x : Hex} (h : Ahead chain L L') (hmem : b ∈ chain)
    (account : ∀ b ∈ chain, b.accountId = x) (htype : b.type = .nftSend)
    (hspares : ∀ tokenId, b.tokenId = some tokenId →
      supersedes (L'.tokenView tokenId).perAccount b.accountId b.index = false ∨
        ClaimedUpTo L' chain tokenId b) : Ahead chain L (L'.applyNftSend b) := by
  obtain ⟨_, _, _, heq, _⟩ := applyNftSend_eq L' b
  refine ⟨?_, fun hash => ?_, fun t => ?_⟩
  · rw [heq]
    exact h.elsewhere.trans ⟨_, _, _, _, _, _, rfl⟩
  · rw [heq]
    exact h.blocks hash
  · rcases applyNftSend_cases L' htype with ⟨_, hnone⟩ | ⟨token, offers, hword, hrecord⟩
    · exact h.token (by rw [hnone])
    · by_cases ht : token = t
      · subst ht
        have hview : (L'.applyNftSend b).tokenView token = (L'.tokenView token).record
            (L.burnedNfts.has token) b.accountId b.index false := by
          rw [hrecord, ← h.elsewhere.burnedNfts]
          exact tokenView_recordNftCustody L' token b.accountId b.index false
        rcases hspares token (wordOn_eq_some.mp hword).1 with hcovered | hclaimed
        · apply h.token
          rw [hview, TokenView.record_of_not_supersedes _ _ _ _ hcovered]
        · have hclaimed' : ClaimedUpTo L chain token b := by
            unfold ClaimedUpTo at hclaimed ⊢
            rw [← h.elsewhere.claimedNftTransfers]
            exact hclaimed
          rcases h.tokens token with hlevel | ⟨s, hs⟩
          · right
            refine ⟨b, hmem, hword, ?_, hclaimed'⟩
            rw [hview, hlevel]
          · have haccount : s.accountId = b.accountId := by
              rw [account s hs.mem, account b hmem]
            rw [hs.view, haccount] at hview
            right
            by_cases hlt : s.index < b.index
            · refine ⟨b, hmem, hword, ?_, hclaimed'⟩
              rw [hview, TokenView.record_false_of_lt _ _ _ _ hlt]
            · refine ⟨s, hs.mem, hs.word, ?_, hs.claimed⟩
              rw [hview, TokenView.record_of_le _ _ _ _ _ _ (not_lt.mp hlt), haccount]
      · apply h.token
        rw [hrecord]
        exact tokenView_recordNftCustody_ne L' b.accountId b.index false ht

/-- Learning a block of the chain on these conditions puts the ledger ahead by no more than
the chain. -/
theorem Ahead.learn {x : Hex} (h : Ahead chain L L') (account : ∀ b ∈ chain, b.accountId = x)
    {c : Call F} (hc : LearnsSafely P cfg chain L' c) : Ahead chain L (step P cfg L' c) := by
  obtain ⟨⟨b, hmem, hlearns⟩, hspares⟩ := hc
  cases c <;> simp only [Call.learns, Option.some.injEq, reduceCtorEq] at hlearns
  case registerVerifiedMint proof tokenId =>
    have hsame : step P cfg L' (.registerVerifiedMint proof tokenId) = L' := by
      refine (registerVerifiedMint_outcome P cfg L' proof tokenId).resolve_right ?_
      rintro ⟨hinfo, hfrozen, hburned, hverified, -⟩
      simp [SparesChain, hinfo, hfrozen, hburned, hverified] at hspares
    rw [hsame]
    exact h
  case registerVerifiedSend packet recipientPub =>
    subst hlearns
    have hstep : step P cfg L' (.registerVerifiedSend packet recipientPub) =
        (registerVerifiedSend P cfg L' packet recipientPub).1 := rfl
    rw [hstep]
    rcases registerVerifiedSend_outcome P cfg L' packet recipientPub with
      hsame | ⟨-, _, _, heq, -⟩
    · rw [hsame]
      exact h
    · rw [heq]
      exact h.index hmem _ _
  case restoreVerifiedBlock block =>
    subst hlearns
    have hstep : step P cfg L' (.restoreVerifiedBlock block) =
        (restoreVerifiedBlock P L' block).1 := rfl
    rw [hstep]
    rcases restoreVerifiedBlock_spared hspares with hsame | ⟨_, heq⟩ | ⟨htype, heq⟩
    · rw [hsame]
      exact h
    · rw [heq]
      exact h.index hmem _ _
    · rw [heq]
      have hindexed := h.index hmem L'.unclaimedSends L'.unclaimedNftTransfers
      exact hindexed.applyNftSend hmem account htype fun tokenId htoken =>
        (hspares tokenId htoken).2 htype

end Learn

/-! ## The main result -/

/-- A chain that the ledger accepts is still accepted after blocks of it have been learned
from proofs, and leaves the same records: the proofs were made in `L`, spare the chain, and
none of its blocks names a source that is still to come. -/
theorem learned_chain_accepted [JsNumber F] (P : Primitives F) (cfg : LedgerConfig)
    (L : EngineLedger F) {L₁ : EngineLedger F} (x : Hex) (learned : List (Call F))
    (delivered delivered' : List (Block F × Int))
    (hchain : Undelivered L x (delivered.map Prod.fst))
    (hsources : SourcesBehind (delivered.map Prod.fst))
    (hlearned : Run.StepsMeet (step P cfg)
      (LearnsSafely P cfg (delivered.map Prod.fst)) L learned)
    (hsame : delivered'.map Prod.fst = delivered.map Prod.fst)
    (hclean : replay P L delivered = some L₁) :
    ∃ L₁', replay P (Run.final (step P cfg) L learned) delivered' = some L₁' ∧
      SameRecords L₁ L₁' := by
  have hahead : Ahead (delivered.map Prod.fst) L (Run.final (step P cfg) L learned) :=
    Run.invariant_final (fun _ _ h hc => h.learn hchain.account hc) (Ahead.refl _ L) hlearned
  exact hahead.replay hchain hsources hsame hclean

/-! ## A transfer that was restored, and a mint that was registered -/

/-- The token that Alice mints. -/
def tune : Hex := nftTokenId Sample.primitives "alice" 1 "tune"

/-- The node on which Alice opens her account and mints the token. -/
def minterNode : EngineLedger Rat :=
  Run.final (step Sample.primitives Sample.config) (new Sample.primitives)
    [.registerAccount ⟨"bob", "bob"⟩, .openAccount "alice" "alice" "nullifier-a" [] false 0,
      .createMintNft "alice" "tune" [] "alice" 1]

/-- The same node after Alice has sent the token to Bob. -/
def senderNode : EngineLedger Rat :=
  step Sample.primitives Sample.config minterNode
    (.createTransferNft "alice" tune "bob" "alice" 2)

/-- Alice's chain, as it is delivered. -/
def aliceDelivery : List (Block Rat × Int) :=
  (senderNode.getAccountChain "alice").map fun b => (b, 0)

/-- The blocks of a type on Alice's chain. -/
def aliceBlocks (type : BlockType) : List (Block Rat) :=
  (senderNode.getAccountChain "alice").filter fun b => b.type = type

/-- Bob's node: it holds Bob's genesis block and his claim of the transfer, and nothing of
Alice's. -/
def receiverNode : EngineLedger Rat :=
  let source := ((aliceBlocks .nftSend).head?.map fun b => b.hash).getD ""
  let opened := step Sample.primitives Sample.config (new Sample.primitives)
    (.openAccount "bob" "bob" "nullifier-b" [] false 0)
  let claim := Sample.continuing opened
    { Sample.header opened "bob" with
      type := .nftReceive, tokenId := some tune, sourceHash := some source }
  step Sample.primitives Sample.config opened (.addBlock claim 3)

theorem aliceDelivery_inOrder :
    (∀ b ∈ aliceDelivery.map Prod.fst, b.accountId = "alice" ∧ b.sourceHash ≠ some b.hash) ∧
      (aliceDelivery.map Prod.fst).Pairwise fun b c =>
        (b.index < c.index ∧ c.hash ≠ b.hash) ∧ b.sourceHash ≠ some c.hash := by
  decide +kernel

theorem sourcesBehind_alice : SourcesBehind (aliceDelivery.map Prod.fst) :=
  ⟨fun b hb => (aliceDelivery_inOrder.1 b hb).2, aliceDelivery_inOrder.2.imp And.right⟩

theorem undelivered_alice {L : EngineLedger Rat} (h : L.getAccountChain "alice" = []) :
    Undelivered L "alice" (aliceDelivery.map Prod.fst) := by
  refine ⟨fun b hb => (aliceDelivery_inOrder.1 b hb).1, aliceDelivery_inOrder.2.imp And.left, ?_⟩
  rw [h]
  intro b _ held hheld
  cases hheld

/-- Bob's node restores the transfer he has claimed, then Alice's chain is delivered. -/
theorem learned_chain_accepted_alice : ∃ L₁ L₁',
    replay Sample.primitives receiverNode aliceDelivery = some L₁ ∧
      replay Sample.primitives
        (Run.final (step Sample.primitives Sample.config) receiverNode
          ((aliceBlocks .nftSend).map .restoreVerifiedBlock))
        aliceDelivery = some L₁' ∧ SameRecords L₁ L₁' := by
  have hclean : (replay Sample.primitives receiverNode aliceDelivery).isSome = true := by
    decide +kernel
  obtain ⟨L₁, hclean⟩ := Option.isSome_iff_exists.mp hclean
  have hnone : receiverNode.getAccountChain "alice" = [] := by
    rw [← List.isEmpty_iff]
    decide +kernel
  have hone : (aliceBlocks .nftSend).length = 1 := by decide +kernel
  have hfacts : ∀ s ∈ aliceBlocks .nftSend,
      s ∈ aliceDelivery.map Prod.fst ∧ s.type = .nftSend ∧ s.tokenId = some tune ∧
        ClaimedUpTo receiverNode (aliceDelivery.map Prod.fst) tune s := by
    decide +kernel
  obtain ⟨s, hs⟩ := List.length_eq_one_iff.mp hone
  obtain ⟨hmem, htype, htoken, hclaimed⟩ := hfacts s (by rw [hs]; exact List.mem_singleton_self s)
  rw [hs, List.map_singleton]
  have hspares : SparesChain Sample.primitives Sample.config (aliceDelivery.map Prod.fst)
      receiverNode (.restoreVerifiedBlock s) := by
    intro tokenId htoken'
    have htune : tune = tokenId := Option.some.inj (htoken.symm.trans htoken')
    subst htune
    refine ⟨fun hmint => ?_, fun _ => .inr hclaimed⟩
    rw [htype] at hmint
    cases hmint
  obtain ⟨L₁', hreplay, hrecords⟩ := learned_chain_accepted Sample.primitives Sample.config
    receiverNode "alice" [.restoreVerifiedBlock s] aliceDelivery aliceDelivery
    (undelivered_alice hnone) sourcesBehind_alice ⟨⟨⟨s, hmem, rfl⟩, hspares⟩, trivial⟩ rfl hclean
  exact ⟨L₁, L₁', hclean, hreplay, hrecords⟩

/-- The leaf of a block in the accumulator of its chain, as an audit path names it. -/
def auditLeaf (b : Block Rat) : Hex :=
  bytesToHex (leafHash Sample.primitives ((hexToBytes b.hash).getD []))

/-- The proof of Alice's mint that her node could give while the mint was her head. -/
def registersMint : List (Call Rat) :=
  match minterNode.getAccountChain "alice" with
  | [opening, mint] =>
    [.registerVerifiedMint ⟨opening, mint, [auditLeaf mint], mint, [auditLeaf opening]⟩ tune]
  | _ => []

/-- A fresh node takes the proof of Alice's mint, and then refuses the mint itself. -/
theorem learned_mint_refused : ¬ ∀ (L : EngineLedger Rat),
    Run.Reachable (step Sample.primitives Sample.config) (new Sample.primitives) L →
      ∀ (x : Hex) (learned : List (Call Rat)) (delivered : List (Block Rat × Int)),
        Undelivered L x (delivered.map Prod.fst) → SourcesBehind (delivered.map Prod.fst) →
          (∀ c ∈ learned, ∃ b ∈ delivered.map Prod.fst, c.learns = some b) →
            ∀ L₁, replay Sample.primitives L delivered = some L₁ →
              ∃ L₁', replay Sample.primitives
                  (Run.final (step Sample.primitives Sample.config) L learned) delivered =
                some L₁' ∧ SameRecords L₁ L₁' := by
  intro hall
  have hclean : (replay Sample.primitives (new Sample.primitives) aliceDelivery).isSome =
      true := by decide +kernel
  obtain ⟨L₁, hclean⟩ := Option.isSome_iff_exists.mp hclean
  have hlearned : ∀ c ∈ registersMint, ∃ b ∈ aliceDelivery.map Prod.fst,
      c.learns = some b := by decide +kernel
  obtain ⟨L₁', hreplay, _⟩ := hall (new Sample.primitives) (Run.reachable_init _) "alice"
    registersMint aliceDelivery (undelivered_alice rfl) sourcesBehind_alice hlearned L₁ hclean
  have hrefused : replay Sample.primitives
      (Run.final (step Sample.primitives Sample.config) (new Sample.primitives) registersMint)
      aliceDelivery = none := by decide +kernel
  rw [hrefused] at hreplay
  cases hreplay

end NeuronWeb.EngineLedger
