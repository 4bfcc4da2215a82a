/-
  Ledger/Steps: the calls of the ledger, sorted by what they can touch.

  The ten `create*` calls are one case (`step_of_author`), opening an account has an
  outcome of its own, and the remaining calls are summarised by the fields they leave
  alone.  Proofs about runs split on these cases and never unfold an entry point.
-/
import NeuronWeb.Ledger.Drafts

set_option autoImplicit false

namespace NeuronWeb.EngineLedger

variable {F : Type}

/-- The author, the key and the clock reading of a `create*` call. -/
def Call.author : Call F → Option (Hex × Hex × Int)
  | .createSend pub _ _ priv now => some (pub, priv, now)
  | .createReceive pub _ priv now => some (pub, priv, now)
  | .createUpdate pub _ priv now => some (pub, priv, now)
  | .createMintNft pub _ _ priv now => some (pub, priv, now)
  | .createTransferNft pub _ _ priv now => some (pub, priv, now)
  | .createReceiveNft pub _ priv now => some (pub, priv, now)
  | .createBurnNft pub _ priv now => some (pub, priv, now)
  | .createStorageRegister pub _ priv _ now => some (pub, priv, now)
  | .createStorageDeregister pub priv now => some (pub, priv, now)
  | .createStorageSettle pub priv _ _ _ _ now => some (pub, priv, now)
  | _ => none

/-- What `openAccount` or a `create*` call does and answers. -/
def createCall [JsNumber F] (P : Primitives F) (cfg : LedgerConfig) (L : EngineLedger F) :
    Call F → Option (EngineLedger F × CreateResult F)
  | .openAccount pub priv nullifier attestations bond now =>
    some (openAccount P cfg L pub priv nullifier attestations bond now)
  | .createSend pub recipientIdentifier amount priv now =>
    some (createSend P L pub recipientIdentifier amount priv now)
  | .createReceive pub sendBlockHash priv now => some (createReceive P L pub sendBlockHash priv now)
  | .createUpdate pub updates priv now => some (createUpdate P L pub updates priv now)
  | .createMintNft pub contentRef md priv now =>
    some (createMintNft P L pub contentRef md priv now)
  | .createTransferNft pub tokenId recipientIdentifier priv now =>
    some (createTransferNft P L pub tokenId recipientIdentifier priv now)
  | .createReceiveNft pub nftSendHash priv now =>
    some (createReceiveNft P L pub nftSendHash priv now)
  | .createBurnNft pub tokenId priv now => some (createBurnNft P L pub tokenId priv now)
  | .createStorageRegister pub capacityGB priv deviceId now =>
    some (createStorageRegister P L pub capacityGB priv deviceId now)
  | .createStorageDeregister pub priv now => some (createStorageDeregister P L pub priv now)
  | .createStorageSettle pub priv receipts periodIndex publishRoot serviceRoot now =>
    some (createStorageSettle P L pub priv receipts periodIndex publishRoot serviceRoot now)
  | _ => none

theorem step_of_createCall [JsNumber F] {P : Primitives F} {cfg : LedgerConfig}
    {L : EngineLedger F} {c : Call F} {r : EngineLedger F × CreateResult F}
    (h : createCall P cfg L c = some r) : step P cfg L c = r.1 := by
  cases c <;> cases h <;> rfl

theorem createCall_of_author [JsNumber F] (P : Primitives F) (cfg : LedgerConfig)
    (L : EngineLedger F) {c : Call F} {pub priv : Hex} {now : Int}
    (h : c.author = some (pub, priv, now)) :
    ∃ r, createCall P cfg L c = some r ∧ CreateOutcome P L c pub priv now r := by
  cases c <;> simp only [Call.author, Option.some.injEq, Prod.mk.injEq, reduceCtorEq] at h
  all_goals obtain ⟨rfl, rfl, rfl⟩ := h
  case createSend => exact ⟨_, rfl, createSend_outcome P L _ _ _ _ _⟩
  case createReceive => exact ⟨_, rfl, createReceive_outcome P L _ _ _ _⟩
  case createUpdate => exact ⟨_, rfl, createUpdate_outcome P L _ _ _ _⟩
  case createMintNft => exact ⟨_, rfl, createMintNft_outcome P L _ _ _ _ _⟩
  case createTransferNft => exact ⟨_, rfl, createTransferNft_outcome P L _ _ _ _ _⟩
  case createReceiveNft => exact ⟨_, rfl, createReceiveNft_outcome P L _ _ _ _⟩
  case createBurnNft => exact ⟨_, rfl, createBurnNft_outcome P L _ _ _ _⟩
  case createStorageRegister => exact ⟨_, rfl, createStorageRegister_outcome P L _ _ _ _ _⟩
  case createStorageDeregister => exact ⟨_, rfl, createStorageDeregister_outcome P L _ _ _⟩
  case createStorageSettle => exact ⟨_, rfl, createStorageSettle_outcome P L _ _ _ _ _ _ _⟩

theorem step_of_author [JsNumber F] (P : Primitives F) (cfg : LedgerConfig)
    (L : EngineLedger F) {c : Call F} {pub priv : Hex} {now : Int}
    (h : c.author = some (pub, priv, now)) :
    ∃ r, step P cfg L c = r.1 ∧ CreateOutcome P L c pub priv now r := by
  obtain ⟨r, hr, outcome⟩ := createCall_of_author P cfg L h
  exact ⟨r, step_of_createCall hr, outcome⟩

/-! ## Frames -/

/-- The consensus and freeze state that no block and no claim touches. -/
structure SameConsensus (L L' : EngineLedger F) : Prop where
  equivocated : L'.equivocated = L.equivocated
  validatorRegistry : L'.validatorRegistry = L.validatorRegistry
  committee : L'.committee = L.committee

theorem SameConsensus.refl (L : EngineLedger F) : SameConsensus L L := ⟨rfl, rfl, rfl⟩

theorem appendForeign_sameConsensus [JsNumber F] (P : Primitives F) (L : EngineLedger F)
    (h : Held F) (acc : AccountAccumulator) (b : Block F) (now : Int) :
    SameConsensus L (appendForeign P L h acc b now) := by
  have hsame := applyBlock_sameChains P (L.hold b.accountId ⟨h.chain ++ [b], acc⟩) b
  exact ⟨hsame.equivocated, hsame.validatorRegistry, hsame.committee⟩

theorem CreateOutcome.sameConsensus [JsNumber F] {P : Primitives F} {L : EngineLedger F}
    {c : Call F} {pub priv : Hex} {now : Int} {r : EngineLedger F × CreateResult F}
    (h : CreateOutcome P L c pub priv now r) : SameConsensus L r.1 := by
  cases h with
  | refused error => exact SameConsensus.refl L
  | thrown => exact SameConsensus.refl L
  | drafted h head content effect stored last draft =>
    rcases appendOwn_cases (P := P) (L := L) h content priv effect with
      ⟨acc, heq⟩ | ⟨acc, block, _, heq⟩
    · rw [heq]
      exact ⟨rfl, rfl, rfl⟩
    · rw [heq]
      have hsame := draft.sameChains
        ((L.hold content.accountId ⟨h.chain ++ [block], acc⟩).indexBlock block) block
      exact ⟨hsame.equivocated, hsame.validatorRegistry, hsame.committee⟩

/-! ## Opening an account -/

/-- The guards of `openAccount`: no chain yet, a quorum of attestations, a fresh human. -/
structure OpenAdmitted (P : Primitives F) (cfg : LedgerConfig) (L : EngineLedger F)
    (pub nullifier : Hex) (attestations : List TypedAttestation)
    (identity : IdentityRegistry) : Prop where
  fresh : L.held.get? pub = none
  quorum : (checkQuorum P attestations (deriveCommitment P nullifier pub)
    cfg.identityPolicy).ok = true
  registered : L.identity.register P nullifier (deriveCommitment P nullifier pub) pub =
    .ok identity

/-- The outcomes of `openAccount`. -/
inductive OpenOutcome (P : Primitives F) (cfg : LedgerConfig) (L : EngineLedger F)
    (pub priv nullifier : Hex) (attestations : List TypedAttestation) (bond : Bool)
    (now : Int) : EngineLedger F × CreateResult F → Prop
  | refused (error : String) :
      OpenOutcome P cfg L pub priv nullifier attestations bond now (L, .refused error)
  /-- The nullifier is spent although the block could not be built. -/
  | thrown (identity : IdentityRegistry) :
      OpenOutcome P cfg L pub priv nullifier attestations bond now
        ({ L with identity }, .thrown)
  | opened (identity : IdentityRegistry) (shard : Int) (acc : AccountAccumulator)
      (block : Block F) (admitted : OpenAdmitted P cfg L pub nullifier attestations identity)
      (created : createBlock P
        { accountId := pub, index := 0, type := .open, previousHash := GENESIS_PREV, shard,
          timestamp := now, balance := MINT
          identityCommitment := some (deriveCommitment P nullifier pub)
          attestations := some attestations } priv [] = (acc, some block)) :
      OpenOutcome P cfg L pub priv nullifier attestations bond now
        (let L' := ({ L with identity }.hold pub ⟨[block], acc⟩).indexBlock block
         (if bond then (L'.bondStake pub (some MINT)).1 else L', .created block))

theorem openAccount_outcome (P : Primitives F) (cfg : LedgerConfig) (L : EngineLedger F)
    (pub priv nullifier : Hex) (attestations : List TypedAttestation) (bond : Bool)
    (now : Int) : OpenOutcome P cfg L pub priv nullifier attestations bond now
      (openAccount P cfg L pub priv nullifier attestations bond now) := by
  unfold openAccount
  cases hheld : L.held.has pub with
  | true =>
    simp only [if_true]
    exact .refused _
  | false =>
    simp only [Bool.false_eq_true, if_false]
    split
    · exact .refused _
    · rename_i hquorum
      rw [Bool.not_eq_true', Bool.not_eq_false] at hquorum
      split
      · exact .refused _
      · rename_i identity hregister
        cases hshard : getShard P pub cfg.numShards with
        | none => exact .thrown identity
        | some shard =>
          simp only
          split
          · exact .thrown identity
          · rename_i acc block hcreate
            exact .opened identity shard acc block
              ⟨(JsMap.has_eq_false_iff _ _).mp hheld, hquorum, hregister⟩ hcreate

theorem bondStake_eq (L : EngineLedger F) (pub : Hex) (amount : Option Int) :
    ∃ validatorRegistry, (L.bondStake pub amount).1 = { L with validatorRegistry } ∧
      ∀ x, validatorRegistry.isSlashed x = L.validatorRegistry.isSlashed x := by
  unfold bondStake
  split
  · exact ⟨_, rfl, fun _ => rfl⟩
  · rename_i head _
    split
    · exact ⟨_, rfl, fun _ => rfl⟩
    · simp only
      split
      · exact ⟨_, rfl, fun _ => rfl⟩
      · split
        · exact ⟨_, rfl, fun _ => rfl⟩
        · exact ⟨_, rfl, fun x => by simp⟩

theorem bondedOf_le_bondStake (L : EngineLedger F) (pub : Hex) (amount : Option Int) (x : Hex) :
    L.validatorRegistry.bondedOf x ≤
      (L.bondStake pub amount).1.validatorRegistry.bondedOf x := by
  unfold bondStake
  split
  · exact le_refl _
  · split
    · exact le_refl _
    · simp only
      split
      · exact le_refl _
      · split
        · exact le_refl _
        · exact ValidatorRegistry.bondedOf_le_bond _ _ _ _

/-! ## Proof claims -/

/-- A mint record is registered on a proof that verifies, of a token that is not known yet. -/
theorem registerVerifiedMint_outcome (P : Primitives F) (cfg : LedgerConfig)
    (L : EngineLedger F) (proof : MintProof F) (tokenId : Hex) :
    (registerVerifiedMint P cfg L proof tokenId).1 = L ∨
      (L.nftInfo.has tokenId = false ∧ L.equivocated.has proof.mintBlock.accountId = false ∧
        L.burnedNfts.has tokenId = false ∧
        verifyMintProof P proof tokenId cfg.identityPolicy = some none ∧ ∃ info,
          (registerVerifiedMint P cfg L proof tokenId).1 =
            { L.indexBlock proof.mintBlock with nftInfo := L.nftInfo.set tokenId info }) := by
  unfold registerVerifiedMint
  split
  · exact .inl rfl
  · rename_i hinfo
    simp only
    split
    · exact .inl rfl
    · rename_i hfrozen
      split
      · exact .inl rfl
      · rename_i hburned
        split
        · exact .inl rfl
        · exact .inl rfl
        · rename_i hverified
          simp only [Bool.not_eq_true] at hinfo hfrozen hburned
          exact .inr ⟨hinfo, hfrozen, hburned, hverified, _, rfl⟩

theorem registerVerifiedMint_eq (P : Primitives F) (cfg : LedgerConfig)
    (L : EngineLedger F) (proof : MintProof F) (tokenId : Hex) : ∃ allBlocks nftInfo,
      (registerVerifiedMint P cfg L proof tokenId).1 = { L with allBlocks, nftInfo } := by
  rcases registerVerifiedMint_outcome P cfg L proof tokenId with h | ⟨-, -, -, -, _, h⟩
  · exact ⟨_, _, h⟩
  · exact ⟨_, _, h⟩

/-- What is newly on offer is of an account that is not frozen, and no receive has claimed it. -/
def OffersAnew (L : EngineLedger F) (sends : JsMap Hex (UnclaimedSend F))
    (nfts : JsMap Hex UnclaimedNft) : Prop :=
  (∀ hash s, sends.get? hash = some s → L.unclaimedSends.get? hash = some s ∨
    (L.equivocated.has s.fromPub = false ∧ L.claimedSends.has hash = false)) ∧
  ∀ hash t, nfts.get? hash = some t → L.unclaimedNftTransfers.get? hash = some t ∨
    (L.equivocated.has t.fromPub = false ∧ t.tokenId ≠ "" ∧
      L.claimedNftTransfers.has hash = false)

/-- Registering a verified send indexes it and offers at most that send. -/
theorem registerVerifiedSend_outcome [JsNumber F] (P : Primitives F) (cfg : LedgerConfig)
    (L : EngineLedger F) (packet : CounterpartyPacket F) (recipientPub : Hex) :
    (registerVerifiedSend P cfg L packet recipientPub).1 = L ∨
      (verifyPacket P packet recipientPub cfg.identityPolicy = some none ∧
        ∃ unclaimedSends unclaimedNftTransfers,
          (registerVerifiedSend P cfg L packet recipientPub).1 =
            { L.indexBlock packet.sendBlock with unclaimedSends, unclaimedNftTransfers } ∧
          L.OffersAnew unclaimedSends unclaimedNftTransfers) := by
  unfold registerVerifiedSend
  simp only
  split
  · exact .inl rfl
  · rename_i hfrozen
    rw [Bool.not_eq_true] at hfrozen
    split
    · exact .inl rfl
    · exact .inl rfl
    · rename_i hverified
      split
      · split
        · exact .inl rfl
        · rename_i tokenId _
          split
          · exact .inl rfl
          · rename_i htoken
            split
            · exact .inl rfl
            · rename_i hclaimed
              split
              · exact .inl rfl
              · split
                · exact .inr ⟨hverified, _, _, rfl, fun _ _ h => .inl h, fun _ _ h => .inl h⟩
                · refine .inr ⟨hverified, _, _, rfl, fun _ _ h => .inl h, fun hash t ht => ?_⟩
                  rw [JsMap.get?_set] at ht
                  split at ht
                  · rename_i hhash
                    cases ht
                    exact .inr ⟨hfrozen, htoken, by simpa [← hhash] using hclaimed⟩
                  · exact .inl ht
      · split
        · exact .inl rfl
        · rename_i hclaimed
          split
          · exact .inr ⟨hverified, _, _, rfl, fun _ _ h => .inl h, fun _ _ h => .inl h⟩
          · refine .inr ⟨hverified, _, _, rfl, fun hash s hs => ?_, fun _ _ h => .inl h⟩
            simp only [indexBlock, JsMap.get?_set] at hs
            split at hs
            · rename_i hhash
              cases hs
              exact .inr ⟨hfrozen, by simpa [← hhash] using hclaimed⟩
            · exact .inl hs

theorem registerVerifiedSend_eq [JsNumber F] (P : Primitives F) (cfg : LedgerConfig)
    (L : EngineLedger F) (packet : CounterpartyPacket F) (recipientPub : Hex) :
    ∃ allBlocks unclaimedSends unclaimedNftTransfers,
      (registerVerifiedSend P cfg L packet recipientPub).1 =
        { L with allBlocks, unclaimedSends, unclaimedNftTransfers } ∧
      L.OffersAnew unclaimedSends unclaimedNftTransfers := by
  rcases registerVerifiedSend_outcome P cfg L packet recipientPub with h | ⟨-, _, _, h, hoffers⟩
  · exact ⟨_, _, _, h, fun _ _ h => .inl h, fun _ _ h => .inl h⟩
  · exact ⟨_, _, _, h, hoffers⟩

/-- Restoring the block puts a transfer of its account on offer. -/
structure OffersOnRestore (P : Primitives F) (L : EngineLedger F) (block : Block F) : Prop where
  verified : verifyBlock P block = true
  offers :
    (block.type = .send ∧ truthy block.recipient = true ∧ block.amount.isSome = true ∧
      L.claimedSends.has block.hash = false ∧ L.unclaimedSends.has block.hash = false) ∨
    (block.type = .nftSend ∧ truthy block.tokenId = true ∧ truthy block.recipient = true ∧
      L.claimedNftTransfers.has block.hash = false)

/-- What restoring a block leaves behind. -/
inductive Restored (P : Primitives F) (L : EngineLedger F) (block : Block F) :
    EngineLedger F → Prop
  | refused : Restored P L block L
  | indexed (verified : verifyBlock P block = true) : Restored P L block (L.indexBlock block)
  | mint (verified : verifyBlock P block = true) (type : block.type = .nftMint)
      {tokenId : Hex} (token : block.tokenId = some tokenId)
      (unknown : L.nftInfo.has tokenId = false) (unburned : L.burnedNfts.has tokenId = false)
      (info : NftInfo) :
      Restored P L block
        { L.indexBlock block with nftInfo := L.nftInfo.set tokenId info }
  | nftSend (verified : verifyBlock P block = true) (type : block.type = .nftSend)
      (token : truthy block.tokenId = true) (recipient : truthy block.recipient = true) :
      Restored P L block ((L.indexBlock block).applyNftSend block)
  | send (offers : OffersOnRestore P L block) (unclaimed : L.claimedSends.has block.hash = false)
      (s : UnclaimedSend F) (sender : s.fromPub = block.accountId) :
      Restored P L block
        { L.indexBlock block with unclaimedSends := L.unclaimedSends.set block.hash s }

theorem restoreVerifiedBlock_outcome [JsNumber F] (P : Primitives F) (L : EngineLedger F)
    (block : Block F) : Restored P L block (restoreVerifiedBlock P L block).1 := by
  unfold restoreVerifiedBlock
  split
  · exact .refused
  · rename_i hverify
    rw [Bool.not_eq_true', Bool.not_eq_false] at hverify
    cases htype : block.type
    case nftMint =>
      simp only
      split
      · rename_i htoken _
        split
        · exact .refused
        · split
          · exact .refused
          · rename_i hburned
            split
            · exact .indexed hverify
            · rename_i hinfo
              rw [Bool.not_eq_true] at hburned hinfo
              exact .mint (L := L) hverify htype htoken hinfo hburned _
      · exact .refused
    case nftSend =>
      simp only
      split
      · exact .refused
      · rename_i hfields
        simp only [Bool.or_eq_true, Bool.not_eq_true', not_or, Bool.not_eq_false] at hfields
        exact .nftSend hverify htype hfields.1 hfields.2
    case send =>
      simp only
      split
      · rename_i recipient amount hrecipient hamount
        split
        · exact .refused
        · rename_i hne
          split
          · exact .indexed hverify
          · rename_i hclaimed
            simp only [indexBlock, Bool.or_eq_true, not_or, Bool.not_eq_true] at hclaimed
            exact .send ⟨hverify, .inl ⟨htype, by simp [truthy, hrecipient, hne],
              by simp [hamount], hclaimed⟩⟩ hclaimed.1 _ rfl
      · exact .refused
    all_goals exact .refused

/-- Restoring a verified block indexes it, records what a mint or a transfer says, and
offers at most the block's own transfer. -/
theorem restoreVerifiedBlock_eq [JsNumber F] (P : Primitives F) (L : EngineLedger F)
    (block : Block F) :
    ∃ allBlocks nftInfo nftOwner nftCustody unclaimedSends unclaimedNftTransfers,
      (restoreVerifiedBlock P L block).1 =
        { L with allBlocks, nftInfo, nftOwner, nftCustody, unclaimedSends,
                 unclaimedNftTransfers } ∧
      (∀ hash s, unclaimedSends.get? hash = some s →
        L.unclaimedSends.get? hash = some s ∨
          (OffersOnRestore P L block ∧ s.fromPub = block.accountId ∧
            L.claimedSends.has hash = false)) ∧
      ∀ hash t, unclaimedNftTransfers.get? hash = some t →
        L.unclaimedNftTransfers.get? hash = some t ∨
          (OffersOnRestore P L block ∧ t.fromPub = block.accountId ∧ t.tokenId ≠ "" ∧
            L.claimedNftTransfers.has hash = false) := by
  have outcome := restoreVerifiedBlock_outcome P L block
  generalize (restoreVerifiedBlock P L block).1 = L' at outcome
  cases outcome with
  | refused | indexed | mint =>
    exact ⟨_, _, _, _, _, _, rfl, fun _ _ h => .inl h, fun _ _ h => .inl h⟩
  | nftSend verified type token recipient =>
    obtain ⟨nftOwner, nftCustody, offers, h, hoffers⟩ :=
      applyNftSend_eq (L.indexBlock block) block
    rw [h]
    refine ⟨_, _, _, _, _, _, rfl, fun _ _ h => .inl h, fun hash t ht => ?_⟩
    rcases hoffers hash t ht with hold | ⟨hhash, hfrom, htoken, hclaimed⟩
    · exact .inl hold
    · exact .inr ⟨⟨verified, .inr ⟨type, token, recipient, hhash ▸ hclaimed⟩⟩, hfrom, htoken,
        hclaimed⟩
  | send offers unclaimed s sender =>
    refine ⟨_, _, _, _, _, _, rfl, fun hash s hs => ?_, fun _ _ h => .inl h⟩
    rw [JsMap.get?_set] at hs
    split at hs
    · rename_i hhash
      cases hs
      exact .inr ⟨offers, sender, hhash ▸ unclaimed⟩
    · exact .inl hs

/-! ## Directory and consensus calls -/

theorem registerAccount_eq (L : EngineLedger F) (account : LedgerAccount) :
    ∃ accountsByPub usernameToPub,
      L.registerAccount account = { L with accountsByPub, usernameToPub } := by
  unfold registerAccount
  split <;> exact ⟨_, _, rfl⟩

theorem updateAccountFields_eq (L : EngineLedger F) (pub : Hex) (username : Option String) :
    ∃ accountsByPub usernameToPub,
      L.updateAccountFields pub username = { L with accountsByPub, usernameToPub } := by
  unfold updateAccountFields
  split <;> exact ⟨_, _, rfl⟩

theorem advanceEpoch_eq [JsNumber F] (P : Primitives F) (L : EngineLedger F)
    (betas : List Hex) (active : Option (List Hex)) :
    ∃ seeds epoch validatorRegistry epochWeightSnapshots committee,
      (advanceEpoch P L betas active).1 =
        { L with seeds, epoch, validatorRegistry, epochWeightSnapshots, committee } := by
  unfold advanceEpoch
  simp only
  split <;> exact ⟨_, _, _, _, _, rfl⟩

/-! ## Calls that leave chains, humans and verdicts alone -/

/-- The directory calls and the claims on proofs. -/
def Call.clerical : Call F → Bool
  | .registerAccount _ | .updateAccountFields _ _ | .registerVerifiedMint _ _
  | .registerVerifiedSend _ _ | .restoreVerifiedBlock _ => true
  | _ => false

/-- What a clerical call leaves alone. -/
structure SameStanding (L L' : EngineLedger F) : Prop where
  held : L'.held = L.held
  identity : L'.identity = L.identity
  equivocated : L'.equivocated = L.equivocated
  validatorRegistry : L'.validatorRegistry = L.validatorRegistry
  committee : L'.committee = L.committee
  providerLedger : L'.providerLedger = L.providerLedger

theorem step_clerical [JsNumber F] (P : Primitives F) (cfg : LedgerConfig) (L : EngineLedger F)
    {c : Call F} (hc : c.clerical = true) : SameStanding L (step P cfg L c) := by
  cases c
  case registerAccount account =>
    obtain ⟨_, _, h⟩ := registerAccount_eq L account
    simp only [step, h]
    exact ⟨rfl, rfl, rfl, rfl, rfl, rfl⟩
  case updateAccountFields pub username =>
    obtain ⟨_, _, h⟩ := updateAccountFields_eq L pub username
    simp only [step, h]
    exact ⟨rfl, rfl, rfl, rfl, rfl, rfl⟩
  case registerVerifiedMint proof tokenId =>
    obtain ⟨_, _, h⟩ := registerVerifiedMint_eq P cfg L proof tokenId
    simp only [step, h]
    exact ⟨rfl, rfl, rfl, rfl, rfl, rfl⟩
  case registerVerifiedSend packet recipientPub =>
    obtain ⟨_, _, _, h, -⟩ := registerVerifiedSend_eq P cfg L packet recipientPub
    simp only [step, h]
    exact ⟨rfl, rfl, rfl, rfl, rfl, rfl⟩
  case restoreVerifiedBlock block =>
    obtain ⟨_, _, _, _, _, _, h, -⟩ := restoreVerifiedBlock_eq P L block
    simp only [step, h]
    exact ⟨rfl, rfl, rfl, rfl, rfl, rfl⟩
  all_goals cases hc

/-- What freezing an account leaves alone. -/
structure SameHumans (L L' : EngineLedger F) : Prop where
  identity : L'.identity = L.identity
  providerLedger : L'.providerLedger = L.providerLedger

theorem freezeEquivocator_sameHumans (L : EngineLedger F) (ev : DoubleSpendEvidence F) :
    SameHumans L (L.freezeEquivocator ev).1 := by
  unfold freezeEquivocator
  split <;> exact ⟨rfl, rfl⟩

theorem flagFork_sameHumans (L : EngineLedger F) (a b : Block F) :
    SameHumans L (L.flagFork a b) := by
  unfold flagFork flagEquivocation
  split
  · obtain ⟨hidentity, hproviders⟩ := freezeEquivocator_sameHumans L _
    exact ⟨hidentity, hproviders⟩
  · exact ⟨rfl, rfl⟩

theorem applyEvidence_sameHumans (P : Primitives F) (L : EngineLedger F)
    (ev : DoubleSpendEvidence F) : SameHumans L (applyEvidence P L ev).1 := by
  unfold applyEvidence
  split
  · exact freezeEquivocator_sameHumans L ev
  · exact ⟨rfl, rfl⟩

theorem applyEvidenceFromBlocks_sameHumans (P : Primitives F) (L : EngineLedger F)
    (a b : Block F) : SameHumans L (applyEvidenceFromBlocks P L a b).1 := by
  unfold applyEvidenceFromBlocks
  split
  · exact applyEvidence_sameHumans P L _
  · exact ⟨rfl, rfl⟩

end NeuronWeb.EngineLedger
