/-
  Ledger/PeerAcceptance: is a block that this node creates acceptable to its peers?

  The `create*` family and `addBlock` are two copies of the rules.  A created block is
  authentic, linked and rooted; what is left are the guards that only one copy has, and
  `PeersAccept` lists them, call by call.
-/
import NeuronWeb.Ledger.BondLock
import NeuronWeb.Ledger.GenesisQuorum

set_option autoImplicit false

namespace NeuronWeb

variable {F : Type}

def CreateResult.block? : CreateResult F → Option (Block F)
  | .created block => some block
  | _ => none

namespace EngineLedger

/-- The key signs for the account. -/
def KeyMatches (P : Primitives F) (pub priv : Hex) : Prop :=
  ∀ message sig, P.sign message priv = some sig → P.verify sig message pub = true

/-! ## What the two copies of the rules disagree on -/

section Condition

variable [JsNumber F] (P : Primitives F) (L : EngineLedger F)

/-- The block that a `create*` call returns. -/
def created : Call F → Option (Block F)
  | .createSend pub recipientIdentifier amount priv now =>
    (createSend P L pub recipientIdentifier amount priv now).2.block?
  | .createReceive pub sendBlockHash priv now =>
    (createReceive P L pub sendBlockHash priv now).2.block?
  | .createUpdate pub updates priv now => (createUpdate P L pub updates priv now).2.block?
  | .createMintNft pub contentRef md priv now =>
    (createMintNft P L pub contentRef md priv now).2.block?
  | .createTransferNft pub tokenId recipientIdentifier priv now =>
    (createTransferNft P L pub tokenId recipientIdentifier priv now).2.block?
  | .createReceiveNft pub nftSendHash priv now =>
    (createReceiveNft P L pub nftSendHash priv now).2.block?
  | .createBurnNft pub tokenId priv now => (createBurnNft P L pub tokenId priv now).2.block?
  | .createStorageRegister pub capacityGB priv deviceId now =>
    (createStorageRegister P L pub capacityGB priv deviceId now).2.block?
  | .createStorageDeregister pub priv now => (createStorageDeregister P L pub priv now).2.block?
  | .createStorageSettle pub priv receipts periodIndex publishRoot serviceRoot now =>
    (createStorageSettle P L pub priv receipts periodIndex publishRoot serviceRoot now).2.block?
  | _ => none

/-- The whole amount that an amount of money rounds to is positive. -/
def RoundsUp (amount : F) : Prop := 0 < JsNumber.toInt (JsNumber.round amount)

/-- The block indexed under `source`, if any, is a payment of that amount to `pub`. -/
def PaysTo (source pub : Hex) (amount : Int) : Prop :=
  source ≠ "" → ∀ src, L.allBlocks.get? source = some src →
    src.type = .send ∧ src.recipient = some pub ∧ src.amount = some amount

/-- The block indexed under `source`, if any, is a transfer of that token to `pub`. -/
def TransfersTo (source pub tokenId : Hex) : Prop :=
  ∀ src, L.allBlocks.get? source = some src →
    src.type = .nftSend ∧ src.recipient = some pub ∧ src.tokenId = some tokenId

/-- The guards of `addBlock` that the `create*` call itself does not check. -/
def PeersAccept : Call F → Prop
  | .createSend pub _ amount _ _ => L.equivocated.has pub = false ∧ RoundsUp amount
  | .createReceive pub source _ _ => L.equivocated.has pub = false ∧
      ∀ offer, L.unclaimedSends.get? source = some offer →
        RoundsUp offer.amount ∧
          PaysTo L source pub (JsNumber.toInt (JsNumber.round offer.amount))
  | .createMintNft pub contentRef _ _ _ => ∀ head, L.getAccountHead pub = some head →
      L.nftInfo.has (nftTokenId P pub (head.index + 1) contentRef) = false ∧
        L.burnedNfts.has (nftTokenId P pub (head.index + 1) contentRef) = false
  | .createTransferNft _ tokenId _ _ _ => tokenId ≠ ""
  | .createReceiveNft pub source _ _ => source ≠ "" ∧
      ∀ offer, L.unclaimedNftTransfers.get? source = some offer →
        TransfersTo L source pub offer.tokenId
  | .createBurnNft _ tokenId _ _ => tokenId ≠ ""
  | .createStorageDeregister pub _ _ => L.equivocated.has pub = false
  | .createStorageSettle pub _ receipts periodIndex _ _ _ => L.equivocated.has pub = false ∧
      JsNumber.le periodIndex
        ((L.providerLedger.lastSettledPeriod.get? pub).getD (JsNumber.ofInt (-1))) = false ∧
      receipts.length ≤ MAX_RECEIPTS_PER_SETTLEMENT ∧
      0 < JsNumber.toInt (JsNumber.floor (creditFromSignedReceipts P pub receipts
        (L.providerLedger.settledFor pub)).payableBytes)
  | _ => True

end Condition

/-! ## What every reachable ledger has -/

/-- Heights and bonds are not negative, and a transfer on offer names a token. -/
structure Grounded (L : EngineLedger F) : Prop where
  index : ∀ x, ∀ b ∈ L.getAccountChain x, 0 ≤ b.index
  bonded : ∀ x, 0 ≤ L.validatorRegistry.bondedOf x
  token : ∀ hash t, L.unclaimedNftTransfers.get? hash = some t → t.tokenId ≠ ""

variable [JsNumber F] {P : Primitives F} {cfg : LedgerConfig} {L : EngineLedger F} {c : Call F}

theorem bonded_step (h : ∀ x, 0 ≤ L.validatorRegistry.bondedOf x) (c : Call F) (x : Hex) :
    0 ≤ (step P cfg L c).validatorRegistry.bondedOf x := by
  by_cases hreset : c = .reset
  · subst hreset
    exact le_refl _
  have hmove := step_bondsMove P cfg L hreset
  cases hslashed : (step P cfg L c).validatorRegistry.isSlashed x with
  | false => exact (h x).trans (hmove.kept x hslashed).2
  | true =>
    rcases hmove.burned x hslashed with ⟨-, heq⟩ | hzero
    · exact heq ▸ h x
    · exact hzero.ge

theorem index_step (h : ∀ x, ∀ b ∈ L.getAccountChain x, 0 ≤ b.index) (c : Call F) (x : Hex)
    {b : Block F} (hmem : b ∈ (step P cfg L c).getAccountChain x) : 0 ≤ b.index := by
  cases step_outcome P cfg L c with
  | quiet hq => exact h x b ((hq.chain x).subset hmem)
  | froze hf => exact h x b (hf.chain x ▸ hmem)
  | reset hr =>
    rw [hr] at hmem
    cases hmem
  | appended new origin ha =>
    cases origin with
    | @opened pub priv nullifier attestations bond now _ identity admitted account type =>
      rcases openAccount_opens P cfg L pub priv nullifier attestations bond now with
        hsame | ⟨block, hmints, -, hopens⟩
      · rw [step, hsame] at hmem
        exact h x b hmem
      · rw [step, hopens] at hmem
        split at hmem
        · rw [List.mem_singleton] at hmem
          exact hmem ▸ hmints.index.ge
        · exact h x b hmem
    | drafted author stored last draft =>
      obtain ⟨-, hindex, -⟩ := draft.header
      have hhead := h _ _ (getAccountChain_of_held stored ▸ List.mem_of_getLast? last)
      rcases ha.mem hmem with hold | rfl
      · exact h x b hold
      · omega
    | linked authentic links checked root =>
      have hindex := links.index
      have hhead := h _ _ (getAccountChain_of_held links.stored ▸
        List.mem_of_getLast? links.last)
      rcases ha.mem hmem with hold | rfl
      · exact h x b hold
      · omega
    | genesis authentic opens =>
      rcases ha.mem hmem with hold | rfl
      · exact h x b hold
      · exact opens.index.ge

theorem token_step (h : ∀ hash t, L.unclaimedNftTransfers.get? hash = some t → t.tokenId ≠ "")
    (c : Call F) (hash : Hex) {t : UnclaimedNft}
    (ht : (step P cfg L c).unclaimedNftTransfers.get? hash = some t) : t.tokenId ≠ "" := by
  cases step_outcome P cfg L c with
  | quiet hq =>
    rcases hq.nfts hash t ht with hold | ⟨-, htoken, -⟩
    · exact h hash t hold
    · exact htoken
  | froze hf => exact h hash t (hf.nfts hash t ht).1
  | reset hr =>
    rw [hr] at ht
    cases ht
  | appended new origin ha =>
    rcases ha.effect.nfts hash t ht with ⟨hold, -⟩ | ⟨-, htoken, -⟩
    · exact h hash t hold
    · exact htoken

theorem grounded_of_reachable (h : Run.Reachable (step P cfg) (new P) L) : Grounded L :=
  Run.invariant_reachable (I := Grounded) ⟨fun _ _ hb => (by cases hb), fun _ => le_refl _,
    fun _ _ ht => (by cases ht)⟩ (fun _ c hL => ⟨fun x _ hb => index_step hL.index c x hb,
      bonded_step hL.bonded c, fun hash _ ht => token_step hL.token c hash ht⟩) h

/-! ## The rules, on drafts -/

section Rules

variable {head block : BlockContent F}

section

omit [JsNumber F]

theorem sourceBlock_eq {source : Hex} (hsource : block.sourceHash = some source) :
    L.sourceBlock block = if source = "" then none else L.allBlocks.get? source := by
  simp [sourceBlock, hsource]

theorem checkSend_eq_none_iff {amt : Int} (hamount : block.amount = some amt)
    (hbalance : block.balance = head.balance - amt) (hcovered : 0 ≤ head.balance - amt) :
    checkSend head block = none ↔ 0 < amt := by
  unfold checkSend
  simp only [hamount]
  split
  · simpa using by omega
  · split
    · omega
    · simpa using by omega

theorem checkReceive_eq_none_iff {amt : Int} {source : Hex} (hamount : block.amount = some amt)
    (hbalance : block.balance = head.balance + amt) (hsource : block.sourceHash = some source) :
    L.checkReceive head block = none ↔ 0 < amt ∧ PaysTo L source block.accountId amt := by
  unfold checkReceive PaysTo
  simp only [hamount, hbalance, sourceBlock_eq hsource, ne_eq, not_true_eq_false, if_false]
  by_cases hpos : amt ≤ 0
  · simp [hpos]
  · rw [if_neg hpos]
    have hlt : 0 < amt := by omega
    by_cases hempty : source = ""
    · simp [hempty, hlt]
    · simp only [hempty, if_false, hlt, not_false_eq_true, true_and, forall_const]
      cases L.allBlocks.get? source with
      | none => simp
      | some src => simp [← not_and_or]

theorem checkNftReceive_eq_none_iff {source tokenId : Hex} (hbalance : block.balance = head.balance)
    (htoken : block.tokenId = some tokenId) (hne : tokenId ≠ "")
    (hsource : block.sourceHash = some source) :
    L.checkNftReceive head block = none ↔
      source ≠ "" ∧ TransfersTo L source block.accountId tokenId := by
  unfold checkNftReceive TransfersTo
  simp only [hbalance, htoken, hsource, sourceBlock_eq hsource, ne_eq, not_true_eq_false, if_false]
  by_cases hempty : source = ""
  · simp [hempty, truthy]
  · cases L.allBlocks.get? source with
    | none => simp [hempty, truthy, hne]
    | some src => simp [hempty, truthy, hne, ← not_and_or]

theorem checkNftMint_eq_none_iff {tokenId : Hex} {contentRef : String}
    (hbalance : block.balance = head.balance) (htoken : block.tokenId = some tokenId)
    (hne : tokenId ≠ "") (hcontent : block.contentRef = some contentRef)
    (hcontent_ne : contentRef ≠ "") : L.checkNftMint head block = none ↔
      L.nftInfo.has tokenId = false ∧ L.burnedNfts.has tokenId = false := by
  simp [checkNftMint, hbalance, htoken, hcontent, truthy, hne, hcontent_ne]

theorem checkNftSend_eq_none_iff {block : Block F} {tokenId recipient : Hex}
    (hbalance : block.balance = head.balance) (htoken : block.tokenId = some tokenId)
    (hrecipient : block.recipient = some recipient) (hne : recipient ≠ "")
    (howner : L.nftOwner.get? tokenId = some block.accountId) :
    L.checkNftSend head block = none ↔ tokenId ≠ "" := by
  simp [checkNftSend, hbalance, htoken, hrecipient, truthy, hne, howner]

theorem checkNftBurn_eq_none_iff {tokenId : Hex} (hbalance : block.balance = head.balance)
    (htoken : block.tokenId = some tokenId)
    (howner : L.nftOwner.get? tokenId = some block.accountId) :
    L.checkNftBurn head block = none ↔ tokenId ≠ "" := by
  simp [checkNftBurn, hbalance, htoken, truthy, howner]

end

theorem checkStorageSettle_eq_none_iff [LawfulJsNumber F] {amount : Int} {periodIndex : F}
    {st : StoragePayload F} {credit : SettlementCredit F} (htype : block.type = .storageSettle)
    (hamount : block.amount = some amount) (hbalance : block.balance = head.balance + amount)
    (hstorage : block.storage = some st) (hperiod : st.periodIndex = some periodIndex)
    (hcredit : ProviderLedger.settlementCredit P L.providerLedger block.accountId (some st) =
      credit)
    (hpositive : JsNumber.le credit.payableBytes (JsNumber.ofInt 0) = false)
    (hfloor : JsNumber.toBigInt (JsNumber.floor credit.payableBytes) = some amount) :
    checkStorageSettle P L head block = none ↔
      JsNumber.le periodIndex ((L.providerLedger.lastSettledPeriod.get? block.accountId).getD
        (JsNumber.ofInt (-1))) = false ∧
      (st.receipts.getD []).length ≤ MAX_RECEIPTS_PER_SETTLEMENT ∧ 0 < amount := by
  unfold checkStorageSettle
  simp only [hamount, hbalance, ne_eq, not_true_eq_false, if_false]
  by_cases hpos : amount ≤ 0
  · simp [hpos]
  · have hlt : 0 < amount := by omega
    have hclaimed := LawfulJsNumber.zero_lt_ofInt (F := F) amount hlt
    have hle := LawfulJsNumber.floor_le _ _ hfloor
    simp only [hpos, if_false, ProviderLedger.validate, htype, ProviderLedger.validateSettle,
      hstorage, hperiod, hamount, Option.getD_some, hcredit, hpositive, hclaimed, hle,
      Bool.not_true, Bool.false_eq_true, hlt, and_true]
    cases JsNumber.le periodIndex ((L.providerLedger.lastSettledPeriod.get?
      block.accountId).getD (JsNumber.ofInt (-1))) with
    | true => simp
    | false => simp

end Rules

/-! ## A signed draft before the checks of `addBlock` -/

section Draft

variable {pub priv : Hex} {now : Int} {h : Held F} {head block : Block F}
  {acc : AccountAccumulator} {effect : Effect F}

theorem Signs.addBlock_success_iff (hL : Grounded L)
    (signs : Signs P L c pub priv now h head block acc effect) (hkey : KeyMatches P pub priv)
    (now' : Int) : (addBlock P L block now').2 = .success ↔
      L.equivocated.has pub = false ∧ checkBlock P L head block = none := by
  obtain ⟨haccount, hindex, hprev, -⟩ := signs.draft.header
  obtain ⟨-, hhash, happend, hroot, hsign⟩ := createBlock_eq_some signs.signed
  have hverify : verifyBlockSignature P block = true := by
    unfold verifyBlockSignature
    rw [haccount]
    exact hkey _ _ hsign
  have hhead := hL.index pub head
    (getAccountChain_of_held signs.stored ▸ List.mem_of_getLast? signs.last)
  have links : Links L h head block :=
    ⟨haccount ▸ signs.stored, signs.last, by omega, hindex, hprev⟩
  have root : RootMatches P h block acc := ⟨happend, hroot.symm⟩
  cases hfrozen : L.equivocated.has pub with
  | true => simp [addBlock, hhash, hverify, haccount, hfrozen]
  | false =>
    have authentic : Authentic P L block := ⟨hhash.symm, hverify, haccount ▸ hfrozen⟩
    cases hcheck : checkBlock P L head block with
    | none =>
      rw [addBlock_extends now' authentic links hcheck root]
      simp
    | some error =>
      rw [addBlock_refuses now' authentic links hcheck]
      simp

/-- The rule of its type accepts a draft exactly when the guards that the call skips hold. -/
theorem Signs.peersAccept_iff [LawfulJsNumber F] (hdigest : ∀ b, P.sha256 b ≠ [])
    (hL : Grounded L) (signs : Signs P L c pub priv now h head block acc effect) :
    (L.equivocated.has pub = false ∧ checkBlock P L head block = none) ↔ PeersAccept P L c := by
  have draft := signs.draft
  have hlast : L.getAccountHead pub = some head := by
    rw [getAccountHead_eq, getAccountChain_of_held signs.stored, signs.last]
  generalize hcontent : block.toBlockContent = content at draft
  have htype : block.type = content.type := by rw [hcontent]
  unfold checkBlock
  cases draft
  case send recipientIdentifier recipientPub amount amt _ _ _ rounded covered =>
    have hbonded := hL.bonded pub
    have hcheck : checkSend head.toBlockContent block.toBlockContent = none ↔ 0 < amt :=
      checkSend_eq_none_iff (by rw [hcontent]) (by rw [hcontent]; rfl) (by omega)
    simp only [hcontent, nextContent] at hcheck ⊢
    rw [hcheck]
    simp [PeersAccept, RoundsUp, JsNumber.toInt, rounded]
  case receive sendBlockHash unclaimed amt offered addressed rounded =>
    have hcheck : L.checkReceive head.toBlockContent block.toBlockContent = none ↔
        0 < amt ∧ PaysTo L sendBlockHash block.accountId amt :=
      checkReceive_eq_none_iff (by rw [hcontent]) (by rw [hcontent]; rfl) (by rw [hcontent])
    simp only [hcontent, nextContent] at hcheck ⊢
    rw [hcheck]
    simp [PeersAccept, RoundsUp, JsNumber.toInt, rounded, offered]
  case update updates notFrozen _ =>
    simp [hcontent, nextContent, PeersAccept, notFrozen]
  case nftMint contentRef md notFrozen contentRef_ne =>
    have hne : nftTokenId P pub (head.index + 1) contentRef ≠ "" :=
      bytesToHex_ne_empty (hdigest _)
    have hcheck : L.checkNftMint head.toBlockContent block.toBlockContent = none ↔ _ ∧ _ :=
      checkNftMint_eq_none_iff (by rw [hcontent]; rfl) (by rw [hcontent]) hne (by rw [hcontent])
        contentRef_ne
    simp only [hcontent, nextContent] at hcheck ⊢
    rw [hcheck]
    simp [PeersAccept, notFrozen, hlast]
  case nftSend tokenId recipientIdentifier recipientPub _ recipient_ne notFrozen owned =>
    have hcheck : L.checkNftSend head.toBlockContent block = none ↔ tokenId ≠ "" :=
      checkNftSend_eq_none_iff (by rw [hcontent]; rfl) (by rw [hcontent]) (by rw [hcontent])
        recipient_ne (by rw [hcontent]; exact owned)
    simp only [hcontent, nextContent]
    rw [hcheck]
    simp [PeersAccept, notFrozen]
  case nftReceive nftSendHash unclaimed notFrozen offered addressed =>
    have hcheck : L.checkNftReceive head.toBlockContent block.toBlockContent = none ↔
        nftSendHash ≠ "" ∧ TransfersTo L nftSendHash block.accountId unclaimed.tokenId :=
      checkNftReceive_eq_none_iff (by rw [hcontent]; rfl) (by rw [hcontent])
        (hL.token _ _ offered) (by rw [hcontent])
    simp only [hcontent, nextContent] at hcheck ⊢
    rw [hcheck]
    simp [PeersAccept, notFrozen, offered]
  case nftBurn tokenId notFrozen owned =>
    have hcheck : L.checkNftBurn head.toBlockContent block.toBlockContent = none ↔ tokenId ≠ "" :=
      checkNftBurn_eq_none_iff (by rw [hcontent]; rfl) (by rw [hcontent])
        (by rw [hcontent]; exact owned)
    simp only [hcontent, nextContent] at hcheck ⊢
    rw [hcheck]
    simp [PeersAccept, notFrozen]
  case storageRegister capacityGB deviceId notFrozen finite positive =>
    simp [hcontent, nextContent, PeersAccept, notFrozen, checkStorage, ProviderLedger.validate,
      finite, positive]
  case storageDeregister storage registered =>
    simp [hcontent, nextContent, PeersAccept, checkStorage, ProviderLedger.validate, registered]
  case storageSettle receipts periodIndex publishRoot serviceRoot payable amount _ _ credited
      positive floored =>
    subst credited
    have hcredit : ProviderLedger.settlementCredit P L.providerLedger block.accountId
        (some (settlePayload receipts periodIndex publishRoot serviceRoot)) =
        ProviderLedger.settlementCredit P L.providerLedger pub
          (some (settlePayload receipts periodIndex publishRoot serviceRoot)) := by
      rw [hcontent]
      rfl
    have hstorage : block.storage =
        some (settlePayload receipts periodIndex publishRoot serviceRoot) := by rw [hcontent]
    have hcheck : checkStorageSettle P L head.toBlockContent block.toBlockContent = none ↔
        _ ∧ _ ∧ 0 < amount :=
      checkStorageSettle_eq_none_iff (by rw [hcontent]; rfl) (by rw [hcontent])
        (by rw [hcontent]; rfl) hstorage rfl hcredit positive floored
    simp only [hcontent, nextContent] at hcheck ⊢
    rw [hcheck]
    have hpayable : (creditFromSignedReceipts P pub receipts
        (L.providerLedger.settledFor pub)).payableBytes = (ProviderLedger.settlementCredit P
          L.providerLedger pub (some (settlePayload receipts periodIndex publishRoot
            serviceRoot))).payableBytes := rfl
    have hreceipts : (settlePayload receipts periodIndex publishRoot serviceRoot).receipts.getD [] =
        receipts := rfl
    simp [PeersAccept, JsNumber.toInt, hreceipts, hpayable, floored]

end Draft

theorem created_of_createCall {P : Primitives F} {cfg : LedgerConfig} {L : EngineLedger F}
    {pub priv : Hex} {now : Int} {r : EngineLedger F × CreateResult F}
    (hauthor : c.author = some (pub, priv, now)) (h : createCall P cfg L c = some r) :
    created P L c = r.2.block? := by
  cases c <;> cases hauthor <;> cases h <;> rfl

/-- A block that a `create*` call returns in a reachable state is accepted by a peer that
holds the same state, if and only if the guards that the call does not check hold. -/
theorem created_accepted_iff [LawfulJsNumber F] (P : Primitives F) (cfg : LedgerConfig)
    (hdigest : ∀ b, P.sha256 b ≠ []) (L : EngineLedger F)
    (hreach : Run.Reachable (step P cfg) (new P) L) (c : Call F) (pub priv : Hex) (now now' : Int)
    (hauthor : c.author = some (pub, priv, now)) (hkey : KeyMatches P pub priv) (block : Block F)
    (hcreated : created P L c = some block) :
    (addBlock P L block now').2 = .success ↔ PeersAccept P L c := by
  have hL := grounded_of_reachable hreach
  obtain ⟨r, hcall, outcome⟩ := createCall_of_author P cfg L hauthor
  rw [created_of_createCall hauthor hcall] at hcreated
  rcases outcome.signs with ⟨hnone, -⟩ | ⟨h, head, b, acc, effect, signs, rfl⟩
  · cases hanswer : r.2 with
    | created b => exact absurd hanswer (hnone b)
    | refused error => simp [hanswer, CreateResult.block?] at hcreated
    | thrown => simp [hanswer, CreateResult.block?] at hcreated
  · cases hcreated
    rw [signs.addBlock_success_iff hL hkey now']
    exact signs.peersAccept_iff hdigest hL

/-! ## A payment that rounds to nothing -/

/-- Bob is known by name, and Alice has opened her account. -/
def payerRun : List (Call Rat) :=
  [.registerAccount ⟨"bob", "bob"⟩, .openAccount "alice" "alice" "nullifier" [] false 0]

def payer : EngineLedger Rat :=
  Run.final (step Sample.primitives Sample.config) (new Sample.primitives) payerRun

/-- Alice pays Bob that many milli-UNIT. -/
def payment (amount : Rat) : Call Rat := .createSend "alice" "bob" amount "alice" 1

theorem keyMatches_sample (key : Hex) : KeyMatches Sample.primitives key key := by
  intro message sig hsign
  cases hsign
  exact Sample.verify_signature message key

/-- Alice's payment of five milli-UNIT, on which the two copies of the rules agree. -/
theorem created_accepted_iff_five :
    (created Sample.primitives payer (payment 5)).isSome = true ∧
      ((created Sample.primitives payer (payment 5)).all fun block =>
        (addBlock Sample.primitives payer block 2).2 = .success) = true := by
  have hsome : (created Sample.primitives payer (payment 5)).isSome = true := by decide +kernel
  refine ⟨hsome, ?_⟩
  obtain ⟨block, hblock⟩ := Option.isSome_iff_exists.mp hsome
  rw [hblock, Option.all_some, decide_eq_true_eq]
  exact (created_accepted_iff Sample.primitives Sample.config (fun _ => List.cons_ne_nil _ _) payer
    ⟨payerRun, rfl⟩ (payment 5) "alice" "alice" 1 2 rfl (keyMatches_sample "alice") block
      hblock).mpr ⟨by decide +kernel, by unfold RoundsUp; decide +kernel⟩

/-- Alice's payment of a quarter of a milli-UNIT is created with the amount zero, which
every peer refuses. -/
theorem created_payment_refused :
    ¬ ∀ (L : EngineLedger Rat) (c : Call Rat) (pub priv : Hex) (now now' : Int)
      (block : Block Rat),
      Run.Reachable (step Sample.primitives Sample.config) (new Sample.primitives) L →
      c.author = some (pub, priv, now) → KeyMatches Sample.primitives pub priv →
      created Sample.primitives L c = some block →
      (addBlock Sample.primitives L block now').2 = .success := by
  intro hall
  have hrefused : ((created Sample.primitives payer (payment (1 / 4))).any fun block =>
      (addBlock Sample.primitives payer block 2).2 ≠ .success) = true := by decide +kernel
  rw [Option.any_eq_true] at hrefused
  obtain ⟨block, hblock, hrefused⟩ := hrefused
  have haccepted := hall payer (payment (1 / 4)) "alice" "alice" 1 2 block ⟨payerRun, rfl⟩ rfl
    (keyMatches_sample "alice") hblock
  simp [haccepted] at hrefused

end EngineLedger

end NeuronWeb
