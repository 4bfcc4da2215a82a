/-
  Ledger/Epochs: committee votes, epochs, purge and reset (`ledger/engine-ledger.ts`).
-/
import NeuronWeb.Ledger.Create

set_option autoImplicit false

namespace NeuronWeb

variable {F : Type}

namespace EngineLedger

section Weights

variable [JsNumber F] (L : EngineLedger F)

/-- The weight source and seed function that `makeCommittee` builds: a past epoch
answers from its snapshot, an epoch without one from the live registry. -/
def voteContext : VoteContext F where
  weightOf id epoch :=
    match L.epochWeightSnapshots.get? epoch with
    | some snap => (snap.byId.get? id).getD (JsNumber.ofInt 0)
    | none => L.validatorRegistry.weightOf id
  totalWeight epoch :=
    match L.epochWeightSnapshots.get? epoch with
    | some snap => snap.total
    | none => L.validatorRegistry.totalWeight
  seedFor epoch := L.seeds.seedFor epoch

/-- The parameters `makeCommittee` passes. -/
def committeeParams : CommitteeParams F :=
  { committeeSize := JsNumber.ofInt DEFAULT_COMMITTEE_SIZE }

def snapshotWeights : WeightSnapshot F :=
  L.validatorRegistry.validators.foldl (fun snap id =>
    let w := L.validatorRegistry.weightOf id
    ⟨JsNumber.add snap.total w, snap.byId.set id w⟩) ⟨JsNumber.ofInt 0, JsMap.empty⟩

end Weights

/-- The committee after registering the voted block on demand.  Every indexed block was
hashed before it was indexed, so the empty hash never comes up. -/
def registerVotedBlock (L : EngineLedger F) (blockHash : Hex) : CommitteeFinality :=
  match L.allBlocks.get? blockHash with
  | some block =>
    if h : block.hash = "" then L.committee
    else L.committee.registerBlock ⟨block.hash, block.accountId, block.previousHash, h⟩
  | none => L.committee

/-- Apply a committee member's vote; a voter that equivocates is slashed. -/
def applyCommitteeVote [JsNumber F] (P : Primitives F) (L : EngineLedger F)
    (vote : CommitteeVote) : EngineLedger F × Option VoteResult :=
  let (committee, r) := CommitteeFinality.applyVote P committeeParams L.voteContext
    (L.registerVotedBlock vote.blockHash) vote
  let registry :=
    match r.bind VoteResult.equivocation with
    | some e => (L.validatorRegistry.slash e.voterId).1
    | none => L.validatorRegistry
  ({ L with committee, validatorRegistry := registry }, r)

/-- Close the current epoch; `none` when committing the betas throws. -/
def advanceEpoch [JsNumber F] (P : Primitives F) (L : EngineLedger F) (betas : List Hex)
    (activeValidators : Option (List Hex)) : EngineLedger F × Option Int :=
  let active := activeValidators.getD L.validatorRegistry.validators
  match EpochSeeds.commit P L.seeds L.epoch betas with
  | none => (L, none)
  | some (seeds, _) =>
    let epoch := L.epoch + 1
    let registry := active.foldl (fun r id => r.creditActivity id 1) L.validatorRegistry
    let L := { L with seeds, epoch, validatorRegistry := registry }
    let snapshots := (L.epochWeightSnapshots.set epoch L.snapshotWeights).filter
      fun e _ => decide (epoch - EPOCH_WEIGHT_RETAIN ≤ e)
    ({ L with
      epochWeightSnapshots := snapshots
      committee := (L.committee.pruneStale epoch).1 }, some epoch)

/-- Install the provider set learned from the archives. -/
def setDiscoveredProviders (L : EngineLedger F) (records : List (StorageProviderState F)) :
    EngineLedger F :=
  { L with providerLedger := L.providerLedger.setDiscovered records }

/-- Forget an account's chain, provider record and directory entries. -/
def purgeAccount (L : EngineLedger F) (pub : Hex) : EngineLedger F :=
  { L with
    held := L.held.delete pub
    providerLedger :=
      { L.providerLedger with providers := L.providerLedger.providers.delete pub }
    usernameToPub :=
      match L.accountsByPub.get? pub with
      | some acc => L.usernameToPub.delete acc.username
      | none => L.usernameToPub
    accountsByPub := L.accountsByPub.delete pub }

/-- Drop the ledger's state; the identity registry and the settled baselines stay. -/
def reset (P : Primitives F) (L : EngineLedger F) : EngineLedger F :=
  { EngineLedger.new P with
    identity := L.identity
    providerLedger := L.providerLedger.clear }

end EngineLedger

end NeuronWeb
