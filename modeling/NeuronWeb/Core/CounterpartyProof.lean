import NeuronWeb.Core.Block

set_option autoImplicit false

/-!
# Light verification and proof packets (`engine/core/light-verify.ts`, `counterparty-proof.ts`)

A verifier that holds nothing of a chain checks a genesis block, a signed head and
audit paths against the head's accumulator root.  `verifyInclusion` throws on
strings that are not hex, and nothing between it and the ledger catches, so every
verdict here is an `Option`: `none` is the thrown call.
-/

namespace NeuronWeb

variable {F : Type}

/-- `{ ok, reason }`: `none` for ok, the reason otherwise. -/
abbrev Verification := Option String

structure AccountHeadProof (F : Type) where
  openBlock : Block F
  headBlock : Block F
  openInclusionProof : List Hex

def verifyAccountHead (P : Primitives F) (proof : AccountHeadProof F)
    (identityPolicy : QuorumPolicy) : Option Verification :=
  let openBlock := proof.openBlock
  let headBlock := proof.headBlock
  if openBlock.type ≠ .open ∨ openBlock.index ≠ 0 ∨ openBlock.previousHash ≠ GENESIS_PREV then
    some (some "open block is not a valid genesis block")
  else if !verifyBlock P openBlock then some (some "open block failed signature/hash check")
  else
    match openBlock.identityCommitment, openBlock.attestations with
    | some commitment, some attestations =>
      if commitment = "" then
        some (some "open block missing identity commitment or attestations")
      else
        let quorum := checkQuorum P attestations commitment identityPolicy
        if !quorum.ok then
          some (some ("identity quorum failed: " ++ quorum.reason.getD "undefined"))
        else if !verifyBlock P headBlock then
          some (some "head block failed signature/hash check")
        else if headBlock.accountId ≠ openBlock.accountId then
          some (some "head and open block belong to different accounts")
        else
          match verifyInclusion P headBlock.accumulatorRoot openBlock.hash 0
              (headBlock.index + 1) proof.openInclusionProof with
          | none => none
          | some false =>
            some (some "open block is not committed by the head accumulator root")
          | some true => some none
    | _, _ => some (some "open block missing identity commitment or attestations")

structure CounterpartyPacket (F : Type) where
  openBlock : Block F
  headBlock : Block F
  openInclusionProof : List Hex
  sendBlock : Block F
  sendInclusionProof : List Hex

structure MintProof (F : Type) where
  openBlock : Block F
  headBlock : Block F
  openInclusionProof : List Hex
  mintBlock : Block F
  mintInclusionProof : List Hex

/-! ## Building a proof -/

/-- What both proof shapes carry: the two ends of a chain, a block of it, and the audit paths
of the genesis and of the block. -/
structure ChainProof (F : Type) where
  openBlock : Block F
  headBlock : Block F
  openInclusionProof : List Hex
  block : Block F
  blockInclusionProof : List Hex

/-- The accumulator over the hashes of `blocks`; `none` when one is not hex and it throws. -/
def accumulate (blocks : List (Block F)) : Option AccountAccumulator :=
  blocks.foldlM (fun acc b => acc.append b.hash) []

/-- The body both builders share: the first block that is `wanted`, with its proofs; the
inner `none` is `null`, the outer one the thrown call. -/
def proveInChain (P : Primitives F) (blocks : List (Block F)) (wanted : Block F → Bool) :
    Option (Option (ChainProof F)) :=
  match blocks.head?, blocks.getLast? with
  | some openBlock, some headBlock =>
    match blocks.findIdx? wanted with
    | none => some none
    | some i => do
      let acc ← accumulate blocks
      let openInclusionProof ← acc.proofHex P 0
      let block ← blocks[i]?
      let blockInclusionProof ← acc.proofHex P i
      some (some { openBlock, headBlock, openInclusionProof, block, blockInclusionProof })
  | _, _ => some none

/-- Build a packet from a full, in-order chain. -/
def buildPacketFromChain (P : Primitives F) (blocks : List (Block F)) (sendHash : Hex) :
    Option (Option (CounterpartyPacket F)) :=
  (proveInChain P blocks fun b => b.hash = sendHash).map fun found => found.map fun proof =>
    { openBlock := proof.openBlock, headBlock := proof.headBlock
      openInclusionProof := proof.openInclusionProof
      sendBlock := proof.block, sendInclusionProof := proof.blockInclusionProof }

/-- Build a mint proof from a holder's copy of the minter's chain. -/
def buildMintProofFromChain (P : Primitives F) (blocks : List (Block F)) (tokenId : Hex) :
    Option (Option (MintProof F)) :=
  (proveInChain P blocks fun b => b.type = .nftMint ∧ b.tokenId = some tokenId).map
    fun found => found.map fun proof =>
      { openBlock := proof.openBlock, headBlock := proof.headBlock
        openInclusionProof := proof.openInclusionProof
        mintBlock := proof.block, mintInclusionProof := proof.blockInclusionProof }

/-! ## Checking a proof -/

/-- The half both proof shapes share: the head is authentic and `block` is committed
by that head's accumulator root. -/
def verifyChainInclusion (P : Primitives F) (openBlock headBlock : Block F)
    (openInclusionProof : List Hex) (block : Block F) (blockInclusionProof : List Hex)
    (identityPolicy : QuorumPolicy) : Option Verification :=
  match verifyAccountHead P ⟨openBlock, headBlock, openInclusionProof⟩ identityPolicy with
  | none => none
  | some (some reason) => some (some ("head: " ++ reason))
  | some none =>
    if block.accountId ≠ headBlock.accountId then
      some (some "block belongs to a different account")
    else if !verifyBlock P block then some (some "block failed signature/hash check")
    else
      match verifyInclusion P headBlock.accumulatorRoot block.hash block.index
          (headBlock.index + 1) blockInclusionProof with
      | none => none
      | some false => some (some "block is not committed by the head accumulator root")
      | some true => some none

def verifyPacket (P : Primitives F) (packet : CounterpartyPacket F) (recipient : Hex)
    (identityPolicy : QuorumPolicy) : Option Verification :=
  let send := packet.sendBlock
  if send.type ≠ .send ∧ send.type ≠ .nftSend then some (some "packet block is not a send")
  else if send.recipient ≠ some recipient then
    some (some "send is not addressed to this recipient")
  else
    verifyChainInclusion P packet.openBlock packet.headBlock packet.openInclusionProof
      send packet.sendInclusionProof identityPolicy

def verifyMintProof (P : Primitives F) (proof : MintProof F) (tokenId : Hex)
    (identityPolicy : QuorumPolicy) : Option Verification :=
  let mint := proof.mintBlock
  if mint.type ≠ .nftMint then some (some "proof block is not an nft-mint")
  else if mint.tokenId ≠ some tokenId then some (some "mint block is for a different token")
  else if !truthy mint.contentRef then some (some "mint block has no content reference")
  else
    verifyChainInclusion P proof.openBlock proof.headBlock proof.openInclusionProof
      mint proof.mintInclusionProof identityPolicy

end NeuronWeb
