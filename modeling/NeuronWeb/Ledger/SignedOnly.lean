/-
  Ledger/SignedOnly: nothing but signed content has an effect.

  Two ledgers are `Alike` when they hold the same blocks up to what the blocks do not sign
  (fields left out of `canonicalContent`, and the signature itself), and agree on everything
  else. Every consumer of a block answers twins, two valid forms of one signed block, the same
  way and leads from alike ledgers to alike ledgers.
-/
import NeuronWeb.Ledger.Effects
import NeuronWeb.Ledger.ProofClaims
import NeuronWeb.Foundation.Run
import NeuronWeb.Transparent

set_option autoImplicit false

namespace NeuronWeb

variable {F : Type}

/-! ## Alike blocks, chains and ledgers -/

/-- The blocks differ at most in what they do not sign, and in their signatures. -/
structure AlikeBlock (b b' : Block F) : Prop where
  signed : SameSigned b.toBlockContent b'.toBlockContent
  hash : b.hash = b'.hash
  accumulatorRoot : b.accumulatorRoot = b'.accumulatorRoot

theorem SameRecord.refl (m : List (String × String)) : SameRecord m m := fun _ => rfl

theorem optionRel_refl {α : Type} {R : α → α → Prop} (hR : ∀ x, R x x) (o : Option α) :
    Option.Rel R o o := by
  cases o with
  | none => exact .none
  | some x => exact .some (hR x)

theorem SameSigned.refl (c : BlockContent F) : SameSigned c c := by
  refine ⟨rfl, rfl, rfl, rfl, rfl, rfl, rfl, ?_⟩
  unfold SameTyped
  split <;> simp [optionRel_refl SameRecord.refl]

theorem AlikeBlock.refl (b : Block F) : AlikeBlock b b := ⟨SameSigned.refl _, rfl, rfl⟩

structure AlikeHeld (h h' : Held F) : Prop where
  chain : List.Forall₂ AlikeBlock h.chain h'.chain
  acc : h.acc = h'.acc

/-- The mint records agree, `meta` as a map. -/
structure SameInfo (i i' : NftInfo) : Prop where
  minter : i.minter = i'.minter
  contentRef : i.contentRef = i'.contentRef
  «meta» : SameRecord i.meta i'.meta

/-- The ledgers hold alike blocks and agree on everything else. -/
structure Alike (L L' : EngineLedger F) : Prop where
  held : ∀ pub, Option.Rel AlikeHeld (L.held.get? pub) (L'.held.get? pub)
  accountsByPub : L.accountsByPub = L'.accountsByPub
  usernameToPub : L.usernameToPub = L'.usernameToPub
  identity : L.identity = L'.identity
  unclaimedSends : L.unclaimedSends = L'.unclaimedSends
  claimedSends : L.claimedSends = L'.claimedSends
  claimedNftTransfers : L.claimedNftTransfers = L'.claimedNftTransfers
  nftOwner : L.nftOwner = L'.nftOwner
  nftCustody : L.nftCustody = L'.nftCustody
  nftInfo : ∀ tokenId, Option.Rel SameInfo (L.nftInfo.get? tokenId) (L'.nftInfo.get? tokenId)
  unclaimedNftTransfers : L.unclaimedNftTransfers = L'.unclaimedNftTransfers
  burnedNfts : L.burnedNfts = L'.burnedNfts
  equivocated : ∀ pub, L.equivocated.has pub = L'.equivocated.has pub
  appliedAt : L.appliedAt = L'.appliedAt
  validatorRegistry : L.validatorRegistry = L'.validatorRegistry
  seeds : L.seeds = L'.seeds
  epoch : L.epoch = L'.epoch
  committee : L.committee = L'.committee
  epochWeightSnapshots : L.epochWeightSnapshots = L'.epochWeightSnapshots
  providerLedger : L.providerLedger = L'.providerLedger
  allBlocks : ∀ hash, Option.Rel AlikeBlock (L.allBlocks.get? hash) (L'.allBlocks.get? hash)

theorem Alike.refl (L : EngineLedger F) : Alike L L where
  held _ := optionRel_refl
    (fun _ => ⟨List.forall₂_same.mpr fun b _ => AlikeBlock.refl b, rfl⟩) _
  accountsByPub := rfl
  usernameToPub := rfl
  identity := rfl
  unclaimedSends := rfl
  claimedSends := rfl
  claimedNftTransfers := rfl
  nftOwner := rfl
  nftCustody := rfl
  nftInfo _ := optionRel_refl (fun i => ⟨rfl, rfl, SameRecord.refl i.meta⟩) _
  unclaimedNftTransfers := rfl
  burnedNfts := rfl
  equivocated _ := rfl
  appliedAt := rfl
  validatorRegistry := rfl
  seeds := rfl
  epoch := rfl
  committee := rfl
  epochWeightSnapshots := rfl
  providerLedger := rfl
  allBlocks _ := optionRel_refl AlikeBlock.refl _

/-! ## Reading alike chains -/

section Providers

variable [JsNumber F] (P : Primitives F) (R : ProviderLedger F) {c c' : BlockContent F}

end Providers

namespace EngineLedger

section Checks

variable {L L' : EngineLedger F} {head head' block block' : Block F}

variable [JsNumber F] (P : Primitives F)

end Checks

/-! ## The effects -/

section Effects

variable {L L' : EngineLedger F} {b b' : Block F}

section

variable (h : Alike L L')
include h

end

section

variable (h : Alike L L')
include h

section

variable (hb : AlikeBlock b b')
include hb

end

end

variable [JsNumber F] (P : Primitives F)

end Effects

/-! ## The calls -/

/-- A block stays, or another valid form of it takes its place. -/
def Swapped (P : Primitives F) (b b' : Block F) : Prop := b = b' ∨ Twins P b b'

section Calls

variable {L L' : EngineLedger F} {b b' : Block F}

variable [JsNumber F] (P : Primitives F)

omit [JsNumber F] in
theorem Swapped.verifyBlock {P : Primitives F} (h : Swapped P b b') :
    verifyBlock P b = NeuronWeb.verifyBlock P b' := by
  rcases h with rfl | h
  · rfl
  · rw [(verifyBlock_iff P b).mpr ⟨h.content, h.signature⟩,
      (verifyBlock_iff P b').mpr ⟨h.content', h.signature'⟩]

section Packets

variable {P} (hP : Function.Injective P.sha256) (hJ : FaithfulJson P)

include hP hJ

section

omit [JsNumber F]

end

end Packets

end Calls

/-! ## Runs -/

/-- What a node is handed by others. -/
inductive Received (F : Type) where
  | block (b : Block F) (now : Int)
  | restored (b : Block F)
  | send (packet : CounterpartyPacket F) (recipientPub : Hex)
  | mint (proof : MintProof F) (tokenId : Hex)

def receive [JsNumber F] (P : Primitives F) (cfg : LedgerConfig) (L : EngineLedger F) :
    Received F → EngineLedger F
  | .block b now => (addBlock P L b now).1
  | .restored b => (restoreVerifiedBlock P L b).1
  | .send packet recipientPub => (registerVerifiedSend P cfg L packet recipientPub).1
  | .mint proof tokenId => (registerVerifiedMint P cfg L proof tokenId).1

end EngineLedger

/-! ## A field that a send does not sign -/

namespace Sample

end Sample

end NeuronWeb
