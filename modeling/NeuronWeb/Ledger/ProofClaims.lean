/-
  Ledger/ProofClaims: claiming on a proof packet, without the counterparty's chain
  (`ledger/engine-ledger.ts`, `registerVerifiedMint`, `registerVerifiedSend`,
  `restoreVerifiedBlock`).
-/
import NeuronWeb.Ledger.State

set_option autoImplicit false

namespace NeuronWeb

variable {F : Type}

/-- What a proof-claim entry point answers; `thrown` when a proof is not hex. -/
inductive ClaimResult where
  | ok
  | refused (error : String)
  | thrown
  deriving DecidableEq, Repr

namespace EngineLedger

/-- Register a token's verified mint record without holding the minter's chain. -/
def registerVerifiedMint (P : Primitives F) (cfg : LedgerConfig) (L : EngineLedger F)
    (proof : MintProof F) (tokenId : Hex) : EngineLedger F × ClaimResult :=
  if L.nftInfo.has tokenId then (L, .ok)
  else
    let mint := proof.mintBlock
    if L.equivocated.has mint.accountId then (L, .refused "minter equivocated")
    else if L.burnedNfts.has tokenId then (L, .refused "token burned")
    else
      match verifyMintProof P proof tokenId cfg.identityPolicy with
      | none => (L, .thrown)
      | some (some reason) => (L, .refused reason)
      | some none =>
        let L := L.indexBlock mint
        let info := mintInfo mint.toBlockContent (mint.contentRef.getD "")
        ({ L with nftInfo := L.nftInfo.set tokenId info }, .ok)

/-- Re-seat state from a foreign block kept after an earlier proof-verified claim. -/
def restoreVerifiedBlock [JsNumber F] (P : Primitives F) (L : EngineLedger F)
    (block : Block F) : EngineLedger F × Bool :=
  if !verifyBlock P block then (L, false)
  else
    match block.type with
    | .nftMint =>
      match block.tokenId, block.contentRef with
      | some tokenId, some contentRef =>
        if tokenId = "" ∨ contentRef = "" then (L, false)
        else if L.burnedNfts.has tokenId then (L, false)
        else
          let L := L.indexBlock block
          if L.nftInfo.has tokenId then (L, true)
          else
            ({ L with nftInfo :=
                L.nftInfo.set tokenId (mintInfo block.toBlockContent contentRef) }, true)
      | _, _ => (L, false)
    | .nftSend =>
      if !truthy block.tokenId || !truthy block.recipient then (L, false)
      else ((L.indexBlock block).applyNftSend block, true)
    | .send =>
      match block.recipient, block.amount with
      | some recipient, some amount =>
        if recipient = "" then (L, false)
        else
          let L := L.indexBlock block
          if L.claimedSends.has block.hash || L.unclaimedSends.has block.hash then (L, true)
          else
            (L.offerSend block.hash block.accountId recipient (JsNumber.ofInt amount), true)
      | _, _ => (L, false)
    | _ => (L, false)

/-- Register a transfer proven by a counterparty packet, so it can be claimed. -/
def registerVerifiedSend [JsNumber F] (P : Primitives F) (cfg : LedgerConfig)
    (L : EngineLedger F) (packet : CounterpartyPacket F) (recipientPub : Hex) :
    EngineLedger F × ClaimResult :=
  let send := packet.sendBlock
  if L.equivocated.has send.accountId then (L, .refused "sender equivocated")
  else
    match verifyPacket P packet recipientPub cfg.identityPolicy with
    | none => (L, .thrown)
    | some (some reason) => (L, .refused reason)
    | some none =>
      if send.type = .nftSend then
        match send.tokenId with
        | none => (L, .refused "nft-send missing token")
        | some tokenId =>
          if tokenId = "" then (L, .refused "nft-send missing token")
          else if L.claimedNftTransfers.has send.hash then (L, .refused "already claimed")
          else if L.burnedNfts.has tokenId then (L, .refused "token burned")
          else
            let L := L.indexBlock send
            if L.unclaimedNftTransfers.has send.hash then (L, .ok)
            else
              let offer := ⟨tokenId, send.accountId, recipientPub⟩
              ({ L with
                unclaimedNftTransfers := L.unclaimedNftTransfers.set send.hash offer }, .ok)
      else if L.claimedSends.has send.hash then (L, .refused "already claimed")
      else
        let L := L.indexBlock send
        if L.unclaimedSends.has send.hash then (L, .ok)
        else
          (L.offerSend send.hash send.accountId recipientPub
            (JsNumber.ofInt (send.amount.getD 0)), .ok)

end EngineLedger

end NeuronWeb
