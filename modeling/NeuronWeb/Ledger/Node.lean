/-
  Ledger/Node: the ledger as a running node drives it.

  Beside the calls of `Run`, a node records what it observes of its providers, writes
  telemetry onto their records and asks which of them are live.  The liveness tracker is
  a field of the provider ledger in the source; here it stands beside the ledger, since
  no block reads it.
-/
import NeuronWeb.Content.CustodyLiveness
import NeuronWeb.Ledger.Run

set_option autoImplicit false

namespace NeuronWeb

variable {F : Type}

/-- A ledger together with the liveness tracker of its provider ledger. -/
structure NodeLedger (F : Type) where
  ledger : EngineLedger F
  liveness : CustodyLiveness

/-- What a node does with its ledger. -/
inductive NodeCall (F : Type) where
  | call (c : EngineLedger.Call F)
  /-- `providerLedger.liveness.record(provider, ok)`. -/
  | observe (provider : Hex) (ok : Bool) (now : Int)
  | telemetry (pub : Hex) (w : TelemetryWrite F)
  | isProviderLive (pub : Hex) (now : Int)
  | liveStorageProviders (now : Int)
  /-- `providerLedger.settledFor(pub)`, what a settle block's service root is made of. -/
  | settledFor (pub : Hex)

/-- What an operation answers. -/
inductive Answer (F : Type) where
  | done
  | created (r : CreateResult F)
  | added (r : AddResult)
  | claimed (r : ClaimResult)
  | flag (ok : Bool)
  | bonded (error : Option String)
  | voted (r : Option VoteResult)
  | epoch (epoch : Option Int)
  | providers (live : List (StorageProviderState F))
  | baselines (settled : JsMap Hex F)

section Calls

variable [JsNumber F] (P : Primitives F) (cfg : LedgerConfig)

/-- The answer of a ledger call. -/
def EngineLedger.answer (L : EngineLedger F) : EngineLedger.Call F → Answer F
  | .registerAccount _ => .done
  | .updateAccountFields _ _ => .done
  | .openAccount pub priv nullifier attestations bond now =>
    .created (openAccount P cfg L pub priv nullifier attestations bond now).2
  | .createSend senderPub recipientIdentifier amount priv now =>
    .created (createSend P L senderPub recipientIdentifier amount priv now).2
  | .createReceive recipientPub sendBlockHash priv now =>
    .created (createReceive P L recipientPub sendBlockHash priv now).2
  | .createUpdate pub updates priv now => .created (createUpdate P L pub updates priv now).2
  | .createMintNft pub contentRef md priv now =>
    .created (createMintNft P L pub contentRef md priv now).2
  | .createTransferNft pub tokenId recipientIdentifier priv now =>
    .created (createTransferNft P L pub tokenId recipientIdentifier priv now).2
  | .createReceiveNft recipientPub nftSendHash priv now =>
    .created (createReceiveNft P L recipientPub nftSendHash priv now).2
  | .createBurnNft pub tokenId priv now => .created (createBurnNft P L pub tokenId priv now).2
  | .createStorageRegister pub capacityGB priv deviceId now =>
    .created (createStorageRegister P L pub capacityGB priv deviceId now).2
  | .createStorageDeregister pub priv now =>
    .created (createStorageDeregister P L pub priv now).2
  | .createStorageSettle pub priv receipts periodIndex publishRoot serviceRoot now =>
    .created (createStorageSettle P L pub priv receipts periodIndex publishRoot serviceRoot now).2
  | .addBlock block now => .added (addBlock P L block now).2
  | .registerVerifiedMint proof tokenId =>
    .claimed (registerVerifiedMint P cfg L proof tokenId).2
  | .registerVerifiedSend packet recipientPub =>
    .claimed (registerVerifiedSend P cfg L packet recipientPub).2
  | .restoreVerifiedBlock block => .flag (restoreVerifiedBlock P L block).2
  | .applyEvidence ev => .flag (applyEvidence P L ev).2
  | .applyEvidenceFromBlocks a b => .flag (applyEvidenceFromBlocks P L a b).2
  | .bondStake pub amount => .bonded (L.bondStake pub amount).2
  | .applyCommitteeVote vote => .voted (applyCommitteeVote P L vote).2
  | .advanceEpoch betas activeValidators => .epoch (advanceEpoch P L betas activeValidators).2
  | .setDiscoveredProviders _ => .done
  | .purgeAccount _ => .done
  | .reset => .done

-- `maxOfflineMs` is `MAX_OFFLINE_MS` of the timing profile in force
variable (maxOfflineMs : Int)

namespace NodeLedger

/-- `new EngineLedger(…)`. -/
def new : NodeLedger F := ⟨EngineLedger.new P, CustodyLiveness.new⟩

/-- One operation: the node it leaves behind and its answer. -/
def respond (n : NodeLedger F) : NodeCall F → NodeLedger F × Answer F
  | .call c => ({ n with ledger := EngineLedger.step P cfg n.ledger c },
      EngineLedger.answer P cfg n.ledger c)
  | .observe provider ok now => ({ n with liveness := n.liveness.record provider ok now }, .done)
  | .telemetry pub w =>
    ({ n with ledger := { n.ledger with
        providerLedger := n.ledger.providerLedger.writeTelemetry pub w } }, .done)
  | .isProviderLive pub now =>
    let (live, liveness) :=
      n.ledger.providerLedger.isLive maxOfflineMs n.liveness pub now
    ({ n with liveness }, .flag live)
  | .liveStorageProviders now =>
    let (live, liveness) :=
      n.ledger.providerLedger.liveProviders maxOfflineMs n.liveness now
    ({ n with liveness }, .providers live)
  | .settledFor pub => (n, .baselines (n.ledger.providerLedger.settledFor pub))

/-- The node an operation leaves behind. -/
def step (n : NodeLedger F) (c : NodeCall F) : NodeLedger F :=
  (respond P cfg maxOfflineMs n c).1

/-- The answers of a sequence of operations. -/
def answers : NodeLedger F → List (NodeCall F) → List (Answer F)
  | _, [] => []
  | n, c :: rest =>
    (respond P cfg maxOfflineMs n c).2 :: answers (step P cfg maxOfflineMs n c) rest

end NodeLedger

end Calls

end NeuronWeb
