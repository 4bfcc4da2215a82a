/-
  Ledger/Run: the public calls of the ledger, and its runs.

  `Call` lists every entry point that can change the ledger.  A run is a list of calls;
  what a call answers is not part of the run, since the callers the development speaks
  about are free to ignore it.
-/
import NeuronWeb.Foundation.Run
import NeuronWeb.Ledger.AddBlock
import NeuronWeb.Ledger.ProofClaims
import NeuronWeb.Ledger.Epochs

set_option autoImplicit false

namespace NeuronWeb.EngineLedger

variable {F : Type}

/-- A call of the ledger's public interface. -/
inductive Call (F : Type) where
  | registerAccount (account : LedgerAccount)
  | updateAccountFields (pub : Hex) (username : Option String)
  | openAccount (pub priv nullifier : Hex) (attestations : List TypedAttestation)
      (bond : Bool) (now : Int)
  | createSend (senderPub : Hex) (recipientIdentifier : String) (amount : F) (priv : Hex)
      (now : Int)
  | createReceive (recipientPub sendBlockHash priv : Hex) (now : Int)
  | createUpdate (pub : Hex) (updates : List (String × String)) (priv : Hex) (now : Int)
  | createMintNft (pub : Hex) (contentRef : String) («meta» : List (String × String))
      (priv : Hex) (now : Int)
  | createTransferNft (pub tokenId : Hex) (recipientIdentifier : String) (priv : Hex)
      (now : Int)
  | createReceiveNft (recipientPub nftSendHash priv : Hex) (now : Int)
  | createBurnNft (pub tokenId priv : Hex) (now : Int)
  | createStorageRegister (pub : Hex) (capacityGB : F) (priv : Hex)
      (deviceId : Option String) (now : Int)
  | createStorageDeregister (pub priv : Hex) (now : Int)
  | createStorageSettle (pub priv : Hex) (receipts : List (SignedReceipt F))
      (periodIndex : F) (publishRoot serviceRoot : Option String) (now : Int)
  | addBlock (block : Block F) (now : Int)
  | registerVerifiedMint (proof : MintProof F) (tokenId : Hex)
  | registerVerifiedSend (packet : CounterpartyPacket F) (recipientPub : Hex)
  | restoreVerifiedBlock (block : Block F)
  | applyEvidence (ev : DoubleSpendEvidence F)
  | applyEvidenceFromBlocks (a b : Block F)
  | bondStake (pub : Hex) (amount : Option Int)
  | applyCommitteeVote (vote : CommitteeVote)
  | advanceEpoch (betas : List Hex) (activeValidators : Option (List Hex))
  | setDiscoveredProviders (records : List (StorageProviderState F))
  | purgeAccount (pub : Hex)
  | reset

variable [JsNumber F] (P : Primitives F) (cfg : LedgerConfig)

/-- The state a call leaves behind. -/
def step (L : EngineLedger F) : Call F → EngineLedger F
  | .registerAccount account => L.registerAccount account
  | .updateAccountFields pub username => L.updateAccountFields pub username
  | .openAccount pub priv nullifier attestations bond now =>
    (openAccount P cfg L pub priv nullifier attestations bond now).1
  | .createSend senderPub recipientIdentifier amount priv now =>
    (createSend P L senderPub recipientIdentifier amount priv now).1
  | .createReceive recipientPub sendBlockHash priv now =>
    (createReceive P L recipientPub sendBlockHash priv now).1
  | .createUpdate pub updates priv now => (createUpdate P L pub updates priv now).1
  | .createMintNft pub contentRef md priv now =>
    (createMintNft P L pub contentRef md priv now).1
  | .createTransferNft pub tokenId recipientIdentifier priv now =>
    (createTransferNft P L pub tokenId recipientIdentifier priv now).1
  | .createReceiveNft recipientPub nftSendHash priv now =>
    (createReceiveNft P L recipientPub nftSendHash priv now).1
  | .createBurnNft pub tokenId priv now => (createBurnNft P L pub tokenId priv now).1
  | .createStorageRegister pub capacityGB priv deviceId now =>
    (createStorageRegister P L pub capacityGB priv deviceId now).1
  | .createStorageDeregister pub priv now => (createStorageDeregister P L pub priv now).1
  | .createStorageSettle pub priv receipts periodIndex publishRoot serviceRoot now =>
    (createStorageSettle P L pub priv receipts periodIndex publishRoot serviceRoot now).1
  | .addBlock block now => (addBlock P L block now).1
  | .registerVerifiedMint proof tokenId => (registerVerifiedMint P cfg L proof tokenId).1
  | .registerVerifiedSend packet recipientPub =>
    (registerVerifiedSend P cfg L packet recipientPub).1
  | .restoreVerifiedBlock block => (restoreVerifiedBlock P L block).1
  | .applyEvidence ev => (applyEvidence P L ev).1
  | .applyEvidenceFromBlocks a b => (applyEvidenceFromBlocks P L a b).1
  | .bondStake pub amount => (L.bondStake pub amount).1
  | .applyCommitteeVote vote => (applyCommitteeVote P L vote).1
  | .advanceEpoch betas activeValidators => (advanceEpoch P L betas activeValidators).1
  | .setDiscoveredProviders records => L.setDiscoveredProviders records
  | .purgeAccount pub => L.purgeAccount pub
  | .reset => L.reset P

end NeuronWeb.EngineLedger
