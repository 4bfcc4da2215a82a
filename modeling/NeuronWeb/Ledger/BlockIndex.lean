/-
  Ledger/BlockIndex: the blocks that a ledger knows by their hash.

  `allBlocks` is what the committee registers voted blocks from.  Blocks enter it at every
  append, with a fork, and with the three claims on proofs; at each of these doors the hash
  has been recomputed from the content, so every indexed block is what its hash says.
-/
import NeuronWeb.Ledger.Moves
import NeuronWeb.Ledger.TokenIdentity

set_option autoImplicit false

namespace NeuronWeb.EngineLedger

variable {F : Type}

/-- Every indexed block stands under the hash of its own content. -/
def Hashed (P : Primitives F) (L : EngineLedger F) : Prop :=
  ∀ hash b, L.allBlocks.get? hash = some b →
    b.hash = hash ∧ computeContentHash P b.toBlockContent = b.hash

/-- Committee and epochs are left alone, and at most one block is indexed, a proper one. -/
structure Indexes (P : Primitives F) (L L' : EngineLedger F) : Prop where
  committee : L'.committee = L.committee
  epoch : L'.epoch = L.epoch
  seeds : L'.seeds = L.seeds
  snapshots : L'.epochWeightSnapshots = L.epochWeightSnapshots
  blocks : L'.allBlocks = L.allBlocks ∨
    ∃ b : Block F, computeContentHash P b.toBlockContent = b.hash ∧
      L'.allBlocks = L.allBlocks.set b.hash b

theorem hashed_new (P : Primitives F) : Hashed P (new P) := by
  intro hash b hget
  simp [new] at hget

theorem Hashed.of_indexes {P : Primitives F} {L L' : EngineLedger F} (h : Hashed P L)
    (indexes : Indexes P L L') : Hashed P L' := by
  intro hash b hget
  rcases indexes.blocks with hsame | ⟨b', hhash, hset⟩
  · rw [hsame] at hget
    exact h hash b hget
  · rw [hset, JsMap.get?_set] at hget
    split at hget
    · rename_i heq
      rw [← Option.some.inj hget]
      exact ⟨heq, hhash⟩
    · exact h hash b hget

/-! ## One call -/

theorem Indexes.refl (P : Primitives F) (L : EngineLedger F) : Indexes P L L :=
  ⟨rfl, rfl, rfl, rfl, .inl rfl⟩

theorem indexes_index {P : Primitives F} {L : EngineLedger F} {b : Block F}
    (hb : computeContentHash P b.toBlockContent = b.hash) : Indexes P L (L.indexBlock b) :=
  ⟨rfl, rfl, rfl, rfl, .inr ⟨b, hb, rfl⟩⟩

theorem Indexes.effect {P : Primitives F} {L L' L'' : EngineLedger F} (h : Indexes P L L')
    (same : SameChains L' L'') : Indexes P L L'' where
  committee := same.committee.trans h.committee
  epoch := same.epoch.trans h.epoch
  seeds := same.seeds.trans h.seeds
  snapshots := same.epochWeightSnapshots.trans h.snapshots
  blocks := same.allBlocks ▸ h.blocks

theorem freezeEquivocator_sameIndex (L : EngineLedger F) (ev : DoubleSpendEvidence F) :
    ∃ equivocated unclaimedSends unclaimedNftTransfers validatorRegistry,
      (L.freezeEquivocator ev).1 = { L with equivocated, unclaimedSends, unclaimedNftTransfers,
                                            validatorRegistry } := by
  unfold freezeEquivocator
  split <;> exact ⟨_, _, _, _, rfl⟩

theorem applyEvidence_indexes (P : Primitives F) (L : EngineLedger F)
    (ev : DoubleSpendEvidence F) : Indexes P L (applyEvidence P L ev).1 := by
  unfold applyEvidence
  split
  · obtain ⟨_, _, _, _, h⟩ := freezeEquivocator_sameIndex L ev
    rw [h]
    exact ⟨rfl, rfl, rfl, rfl, .inl rfl⟩
  · exact .refl P L

theorem flagFork_indexes {P : Primitives F} {L : EngineLedger F} {existing b : Block F}
    (hb : computeContentHash P b.toBlockContent = b.hash) :
    Indexes P L (L.flagFork existing b) := by
  unfold flagFork flagEquivocation
  cases proveDoubleSpend existing b with
  | none => exact indexes_index hb
  | some ev =>
    obtain ⟨_, _, _, _, h⟩ := freezeEquivocator_sameIndex L ev
    simp only [h]
    exact ⟨rfl, rfl, rfl, rfl, .inr ⟨b, hb, rfl⟩⟩

section Calls

variable [JsNumber F] {P : Primitives F} {cfg : LedgerConfig} {L : EngineLedger F}

theorem create_indexes {c : Call F} {pub priv : Hex} {now : Int}
    {r : EngineLedger F × CreateResult F} (outcome : CreateOutcome P L c pub priv now r) :
    Indexes P L r.1 := by
  cases outcome with
  | refused error => exact .refl P L
  | thrown => exact .refl P L
  | drafted h head content effect stored last draft =>
    rcases appendOwn_cases (P := P) (L := L) h content priv effect with
      ⟨acc, heq⟩ | ⟨acc, block, hcreate, heq⟩
    · rw [heq]
      exact ⟨rfl, rfl, rfl, rfl, .inl rfl⟩
    · obtain ⟨rfl, hhash, -⟩ := createBlock_eq_some hcreate
      have hsame := draft.sameChains
        ((L.hold block.accountId ⟨h.chain ++ [block], acc⟩).indexBlock block) block
      rw [heq]
      have hindexed : Indexes P L
          ((L.hold block.accountId ⟨h.chain ++ [block], acc⟩).indexBlock block) :=
        ⟨rfl, rfl, rfl, rfl, .inr ⟨block, hhash.symm, rfl⟩⟩
      exact hindexed.effect hsame

theorem appendForeign_indexes (h : Held F) (acc : AccountAccumulator) {b : Block F} (now : Int)
    (hb : computeContentHash P b.toBlockContent = b.hash) :
    Indexes P L (appendForeign P L h acc b now) := by
  have hsame := applyBlock_sameChains P (L.hold b.accountId ⟨h.chain ++ [b], acc⟩) b
  refine ⟨hsame.committee, hsame.epoch, hsame.seeds, hsame.epochWeightSnapshots,
    .inr ⟨b, hb, ?_⟩⟩
  exact congrArg (JsMap.set · b.hash b) hsame.allBlocks

theorem addBlock_indexes (block : Block F) (now : Int) :
    Indexes P L (addBlock P L block now).1 := by
  have outcome := addBlock_outcome P L block now
  generalize addBlock P L block now = result at outcome
  cases outcome with
  | unchanged r => exact .refl P L
  | forked h existing error authentic forks => exact flagFork_indexes authentic.hash
  | emptied r authentic opens refused => exact ⟨rfl, rfl, rfl, rfl, .inl rfl⟩
  | opened acc authentic opens root =>
    have h := appendForeign_indexes (P := P) (L := L.hold block.accountId ⟨[], []⟩) ⟨[], []⟩ acc
      now authentic.hash
    exact ⟨h.committee, h.epoch, h.seeds, h.snapshots, h.blocks⟩
  | extended h head acc authentic links checked root =>
    exact appendForeign_indexes h acc now authentic.hash

omit [JsNumber F] in
theorem openAccount_indexes (pub priv nullifier : Hex) (attestations : List TypedAttestation)
    (bond : Bool) (now : Int) :
    Indexes P L (openAccount P cfg L pub priv nullifier attestations bond now).1 := by
  have outcome := openAccount_outcome P cfg L pub priv nullifier attestations bond now
  generalize openAccount P cfg L pub priv nullifier attestations bond now = result at outcome
  cases outcome with
  | refused error => exact .refl P L
  | thrown identity => exact ⟨rfl, rfl, rfl, rfl, .inl rfl⟩
  | opened identity shard acc block admitted created =>
    obtain ⟨hcontent, hhash, -⟩ := createBlock_eq_some created
    have hblock : computeContentHash P block.toBlockContent = block.hash := by
      rw [hcontent, hhash]
    simp only
    split
    · obtain ⟨_, hbond, _⟩ := bondStake_eq
        (({ L with identity }.hold pub ⟨[block], acc⟩).indexBlock block) pub (some MINT)
      rw [hbond]
      exact ⟨rfl, rfl, rfl, rfl, .inr ⟨block, hblock, rfl⟩⟩
    · exact ⟨rfl, rfl, rfl, rfl, .inr ⟨block, hblock, rfl⟩⟩

omit [JsNumber F] in
theorem registerVerifiedMint_indexes (proof : MintProof F) (tokenId : Hex) :
    Indexes P L (registerVerifiedMint P cfg L proof tokenId).1 := by
  rcases registerVerifiedMint_outcome P cfg L proof tokenId with
    h | ⟨-, -, -, hverified, info, h⟩
  · exact h.symm ▸ .refl P L
  · have hmint := (verifyMintProof_eq_ok hverified).2
    rw [h]
    exact ⟨rfl, rfl, rfl, rfl, .inr ⟨_, ((verifyBlock_iff P _).mp hmint).1, rfl⟩⟩

theorem registerVerifiedSend_indexes (packet : CounterpartyPacket F) (recipientPub : Hex) :
    Indexes P L (registerVerifiedSend P cfg L packet recipientPub).1 := by
  rcases registerVerifiedSend_outcome P cfg L packet recipientPub with
    h | ⟨hverified, sends, nfts, h, -⟩
  · exact h.symm ▸ .refl P L
  · have hsend := verifyPacket_eq_ok hverified
    rw [h]
    exact ⟨rfl, rfl, rfl, rfl, .inr ⟨_, ((verifyBlock_iff P _).mp hsend).1, rfl⟩⟩

theorem restoreVerifiedBlock_indexes (block : Block F) :
    Indexes P L (restoreVerifiedBlock P L block).1 := by
  have outcome := restoreVerifiedBlock_outcome P L block
  generalize (restoreVerifiedBlock P L block).1 = L' at outcome
  have hindexed (hverify : verifyBlock P block = true) : Indexes P L (L.indexBlock block) :=
    indexes_index ((verifyBlock_iff P block).mp hverify).1
  cases outcome with
  | refused => exact .refl P L
  | indexed verified => exact hindexed verified
  | mint verified => exact ⟨rfl, rfl, rfl, rfl, (hindexed verified).blocks⟩
  | nftSend verified =>
    obtain ⟨_, _, _, h, -⟩ := applyNftSend_eq (L.indexBlock block) block
    rw [h]
    exact ⟨rfl, rfl, rfl, rfl, (hindexed verified).blocks⟩
  | send offers => exact ⟨rfl, rfl, rfl, rfl, (hindexed offers.verified).blocks⟩

/-- The calls that reach the committee. -/
def Call.polls : Call F → Bool
  | .applyCommitteeVote .. => true
  | .advanceEpoch .. => true
  | .reset => true
  | _ => false

/-- What every other call does to the committee and to the index. -/
theorem step_indexes {c : Call F} (hc : c.polls = false) : Indexes P L (step P cfg L c) := by
  cases hauthor : c.author with
  | some author =>
    obtain ⟨pub, priv, now⟩ := author
    obtain ⟨r, hstep, outcome⟩ := step_of_author P cfg L hauthor
    rw [hstep]
    exact create_indexes outcome
  | none =>
    cases c
    case registerAccount account =>
      obtain ⟨_, _, h⟩ := registerAccount_eq L account
      simp only [step, h]
      exact ⟨rfl, rfl, rfl, rfl, .inl rfl⟩
    case updateAccountFields pub username =>
      obtain ⟨_, _, h⟩ := updateAccountFields_eq L pub username
      simp only [step, h]
      exact ⟨rfl, rfl, rfl, rfl, .inl rfl⟩
    case openAccount => exact openAccount_indexes _ _ _ _ _ _
    case addBlock => exact addBlock_indexes _ _
    case registerVerifiedMint => exact registerVerifiedMint_indexes _ _
    case registerVerifiedSend => exact registerVerifiedSend_indexes _ _
    case restoreVerifiedBlock => exact restoreVerifiedBlock_indexes _
    case applyEvidence ev => exact applyEvidence_indexes P L ev
    case applyEvidenceFromBlocks a b =>
      simp only [step, applyEvidenceFromBlocks]
      split
      · exact applyEvidence_indexes P L _
      · exact .refl P L
    case bondStake pub amount =>
      obtain ⟨_, h, _⟩ := bondStake_eq L pub amount
      simp only [step, h]
      exact ⟨rfl, rfl, rfl, rfl, .inl rfl⟩
    case setDiscoveredProviders => exact ⟨rfl, rfl, rfl, rfl, .inl rfl⟩
    case purgeAccount => exact ⟨rfl, rfl, rfl, rfl, .inl rfl⟩
    all_goals first | exact absurd hc.symm Bool.false_ne_true | cases hauthor

end Calls

end NeuronWeb.EngineLedger
