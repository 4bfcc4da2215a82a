/-
  Ledger/Drafts: what the `create*` family can do.

  `Draft` lists, entry point by entry point, the content an owner can put in its next
  block and the effect that goes with it, under the guards of the source.  Every
  `create*` call either leaves the ledger alone or appends its draft; this is proved once
  for each entry point and is all that later modules use of their bodies.
-/
import NeuronWeb.Ledger.Run
import NeuronWeb.Ledger.Effects

set_option autoImplicit false

namespace NeuronWeb.EngineLedger

variable {F : Type}

/-- An effect on the ledger of the block that has just been appended. -/
abbrev Effect (F : Type) := EngineLedger F → Block F → EngineLedger F

/-- The payload that `createStorageSettle` signs. -/
def settlePayload (receipts : List (SignedReceipt F)) (periodIndex : F)
    (publishRoot serviceRoot : Option String) : StoragePayload F :=
  { periodIndex := some periodIndex, receipts := some receipts
    publishRoot := publishRoot.filter (· ≠ "")
    serviceRoot := serviceRoot.filter (· ≠ "") }

/-- The draft of a `create*` call by `pub` on top of `head`, with the guards that admit it. -/
inductive Draft [JsNumber F] (P : Primitives F) (L : EngineLedger F) (pub priv : Hex)
    (head : Block F) (now : Int) : Call F → BlockContent F → Effect F → Prop
  | send (recipientIdentifier : String) (recipientPub : Hex) (amount : F) (amt : Int)
      (resolved : L.resolveToPublicKey recipientIdentifier = some recipientPub)
      (recipient_ne : recipientPub ≠ "")
      (positive : JsNumber.le amount (JsNumber.ofInt 0) = false)
      (rounded : JsNumber.toBigInt (JsNumber.round amount) = some amt)
      (covered : amt ≤ head.balance - L.validatorRegistry.bondedOf pub) :
      Draft P L pub priv head now (.createSend pub recipientIdentifier amount priv now)
        { nextContent head pub .send now (head.balance - amt) with
          recipient := some recipientPub
          amount := some amt
          recipientName := L.usernameOf recipientPub }
        fun L block => L.offerSend block.hash pub recipientPub amount
  | receive (sendBlockHash : Hex) (unclaimed : UnclaimedSend F) (amt : Int)
      (offered : L.unclaimedSends.get? sendBlockHash = some unclaimed)
      (addressed : unclaimed.toPub = pub)
      (rounded : JsNumber.toBigInt (JsNumber.round unclaimed.amount) = some amt) :
      Draft P L pub priv head now (.createReceive pub sendBlockHash priv now)
        { nextContent head pub .receive now (head.balance + amt) with
          sourceHash := some sendBlockHash
          amount := some amt
          senderPub := some unclaimed.fromPub
          senderName := L.usernameOf unclaimed.fromPub }
        fun L _ => L.claimSend sendBlockHash
  | update (updates : List (String × String)) (notFrozen : L.equivocated.has pub = false)
      (some_update : updates ≠ []) :
      Draft P L pub priv head now (.createUpdate pub updates priv now)
        { nextContent head pub .update now head.balance with updates := some updates }
        fun L _ => L.applyAccountUpdate pub updates
  | nftMint (contentRef : String) («meta» : List (String × String))
      (notFrozen : L.equivocated.has pub = false) (contentRef_ne : contentRef ≠ "") :
      Draft P L pub priv head now (.createMintNft pub contentRef «meta» priv now)
        { nextContent head pub .nftMint now head.balance with
          tokenId := some (nftTokenId P pub (head.index + 1) contentRef)
          contentRef := some contentRef
          nftMeta := some «meta» }
        applyNftMint
  | nftSend (tokenId : Hex) (recipientIdentifier : String) (recipientPub : Hex)
      (resolved : L.resolveToPublicKey recipientIdentifier = some recipientPub)
      (recipient_ne : recipientPub ≠ "") (notFrozen : L.equivocated.has pub = false)
      (owned : L.nftOwner.get? tokenId = some pub) :
      Draft P L pub priv head now (.createTransferNft pub tokenId recipientIdentifier priv now)
        { nextContent head pub .nftSend now head.balance with
          tokenId := some tokenId
          recipient := some recipientPub
          recipientName := L.usernameOf recipientPub }
        applyNftSend
  | nftReceive (nftSendHash : Hex) (unclaimed : UnclaimedNft)
      (notFrozen : L.equivocated.has pub = false)
      (offered : L.unclaimedNftTransfers.get? nftSendHash = some unclaimed)
      (addressed : unclaimed.toPub = pub) :
      Draft P L pub priv head now (.createReceiveNft pub nftSendHash priv now)
        { nextContent head pub .nftReceive now head.balance with
          tokenId := some unclaimed.tokenId
          sourceHash := some nftSendHash
          senderPub := some unclaimed.fromPub
          senderName := L.usernameOf unclaimed.fromPub }
        applyNftReceive
  | nftBurn (tokenId : Hex) (notFrozen : L.equivocated.has pub = false)
      (owned : L.nftOwner.get? tokenId = some pub) :
      Draft P L pub priv head now (.createBurnNft pub tokenId priv now)
        { nextContent head pub .nftBurn now head.balance with tokenId := some tokenId }
        applyNftBurn
  | storageRegister (capacityGB : F) (deviceId : Option String)
      (notFrozen : L.equivocated.has pub = false)
      (finite : JsNumber.isFinite capacityGB = true)
      (positive : JsNumber.le capacityGB (JsNumber.ofInt 0) = false) :
      Draft P L pub priv head now (.createStorageRegister pub capacityGB priv deviceId now)
        { nextContent head pub .storageRegister now head.balance with
          storage := some { capacityGB := some capacityGB, deviceId := deviceId.filter (· ≠ "") }
          amount := none }
        (applyStorage P)
  | storageDeregister (storage : StoragePayload F)
      (registered : L.providerLedger.isRegistered pub = true) :
      Draft P L pub priv head now (.createStorageDeregister pub priv now)
        { nextContent head pub .storageDeregister now head.balance with
          storage := some storage, amount := none }
        (applyStorage P)
  | storageSettle (receipts : List (SignedReceipt F)) (periodIndex : F)
      (publishRoot serviceRoot : Option String) (payable : F) (amount : Int)
      (registered : L.providerLedger.isRegistered pub = true) (some_receipt : receipts ≠ [])
      (credited : payable = (ProviderLedger.settlementCredit P L.providerLedger pub
        (some (settlePayload receipts periodIndex publishRoot serviceRoot))).payableBytes)
      (positive : JsNumber.le payable (JsNumber.ofInt 0) = false)
      (floored : JsNumber.toBigInt (JsNumber.floor payable) = some amount) :
      Draft P L pub priv head now
        (.createStorageSettle pub priv receipts periodIndex publishRoot serviceRoot now)
        { nextContent head pub .storageSettle now (head.balance + amount) with
          storage := some (settlePayload receipts periodIndex publishRoot serviceRoot)
          amount := some amount }
        (applyStorage P)

/-- The outcomes of the `create*` call `c` by `pub` with the key `priv`. -/
inductive CreateOutcome [JsNumber F] (P : Primitives F) (L : EngineLedger F) (c : Call F)
    (pub priv : Hex) (now : Int) : EngineLedger F × CreateResult F → Prop
  | refused (error : String) : CreateOutcome P L c pub priv now (L, .refused error)
  | thrown : CreateOutcome P L c pub priv now (L, .thrown)
  | drafted (h : Held F) (head : Block F) (content : BlockContent F) (effect : Effect F)
      (stored : L.held.get? pub = some h) (last : h.chain.getLast? = some head)
      (draft : Draft P L pub priv head now c content effect) :
      CreateOutcome P L c pub priv now (appendOwn P L h content priv effect)

section Outcomes

variable [JsNumber F] (P : Primitives F) (L : EngineLedger F)

theorem createSend_outcome (pub : Hex) (recipientIdentifier : String) (amount : F)
    (priv : Hex) (now : Int) :
    CreateOutcome P L (.createSend pub recipientIdentifier amount priv now) pub priv now
      (createSend P L pub recipientIdentifier amount priv now) := by
  unfold createSend
  cases hresolve : L.resolveToPublicKey recipientIdentifier with
  | none => exact .refused _
  | some recipientPub =>
    simp only
    split
    · exact .refused _
    · rename_i hne
      cases hhead : L.heldHead pub with
      | none => exact .refused _
      | some p =>
        obtain ⟨h, head⟩ := p
        obtain ⟨stored, last⟩ := heldHead_eq_some.mp hhead
        simp only
        split
        · exact .refused _
        · rename_i hpos
          cases hround : JsNumber.toBigInt (JsNumber.round amount) with
          | none => exact .thrown
          | some amt =>
            simp only
            split
            · exact .refused _
            · rename_i hcovered
              exact .drafted h head _ _ stored last
                (.send recipientIdentifier recipientPub amount amt hresolve hne
                  (by simpa using hpos) hround (by omega))

theorem createReceive_outcome (pub sendBlockHash priv : Hex) (now : Int) :
    CreateOutcome P L (.createReceive pub sendBlockHash priv now) pub priv now
      (createReceive P L pub sendBlockHash priv now) := by
  unfold createReceive
  cases hoffer : L.unclaimedSends.get? sendBlockHash with
  | none => exact .refused _
  | some unclaimed =>
    simp only
    split
    · exact .refused _
    · rename_i haddressed
      rw [ne_eq, Decidable.not_not] at haddressed
      cases hhead : L.heldHead pub with
      | none => exact .refused _
      | some p =>
        obtain ⟨h, head⟩ := p
        obtain ⟨stored, last⟩ := heldHead_eq_some.mp hhead
        simp only
        cases hround : JsNumber.toBigInt (JsNumber.round unclaimed.amount) with
        | none => exact .thrown
        | some amt =>
          exact .drafted h head _ _ stored last
            (.receive sendBlockHash unclaimed amt hoffer haddressed hround)

theorem createUpdate_outcome (pub : Hex) (updates : List (String × String)) (priv : Hex)
    (now : Int) : CreateOutcome P L (.createUpdate pub updates priv now) pub priv now
      (createUpdate P L pub updates priv now) := by
  unfold createUpdate
  cases hhead : L.heldHead pub with
  | none => exact .refused _
  | some p =>
    obtain ⟨h, head⟩ := p
    obtain ⟨stored, last⟩ := heldHead_eq_some.mp hhead
    simp only
    split
    · exact .refused _
    · rename_i hfrozen
      split
      · exact .refused _
      · rename_i hupdates
        exact .drafted h head _ _ stored last
          (.update updates (by simpa using hfrozen) (by simpa using hupdates))

theorem createMintNft_outcome (pub : Hex) (contentRef : String)
    (md : List (String × String)) (priv : Hex) (now : Int) :
    CreateOutcome P L (.createMintNft pub contentRef md priv now) pub priv now
      (createMintNft P L pub contentRef md priv now) := by
  unfold createMintNft
  cases hhead : L.heldHead pub with
  | none => exact .refused _
  | some p =>
    obtain ⟨h, head⟩ := p
    obtain ⟨stored, last⟩ := heldHead_eq_some.mp hhead
    simp only
    split
    · exact .refused _
    · rename_i hfrozen
      split
      · exact .refused _
      · rename_i hcontent
        exact .drafted h head _ _ stored last
          (.nftMint contentRef md (by simpa using hfrozen) hcontent)

theorem createTransferNft_outcome (pub tokenId : Hex) (recipientIdentifier : String)
    (priv : Hex) (now : Int) :
    CreateOutcome P L (.createTransferNft pub tokenId recipientIdentifier priv now) pub priv now
      (createTransferNft P L pub tokenId recipientIdentifier priv now) := by
  unfold createTransferNft
  cases hresolve : L.resolveToPublicKey recipientIdentifier with
  | none => exact .refused _
  | some recipientPub =>
    simp only
    split
    · exact .refused _
    · rename_i hne
      split
      · exact .refused _
      · rename_i hfrozen
        split
        · exact .refused _
        · rename_i howned
          rw [ne_eq, Decidable.not_not] at howned
          cases hhead : L.heldHead pub with
          | none => exact .thrown
          | some p =>
            obtain ⟨h, head⟩ := p
            obtain ⟨stored, last⟩ := heldHead_eq_some.mp hhead
            exact .drafted h head _ _ stored last
              (.nftSend tokenId recipientIdentifier recipientPub hresolve hne
                (by simpa using hfrozen) howned)

theorem createReceiveNft_outcome (pub nftSendHash priv : Hex) (now : Int) :
    CreateOutcome P L (.createReceiveNft pub nftSendHash priv now) pub priv now
      (createReceiveNft P L pub nftSendHash priv now) := by
  unfold createReceiveNft
  split
  · exact .refused _
  · rename_i hfrozen
    cases hoffer : L.unclaimedNftTransfers.get? nftSendHash with
    | none => exact .refused _
    | some unclaimed =>
      simp only
      split
      · exact .refused _
      · rename_i haddressed
        rw [ne_eq, Decidable.not_not] at haddressed
        cases hhead : L.heldHead pub with
        | none => exact .refused _
        | some p =>
          obtain ⟨h, head⟩ := p
          obtain ⟨stored, last⟩ := heldHead_eq_some.mp hhead
          exact .drafted h head _ _ stored last
            (.nftReceive nftSendHash unclaimed (by simpa using hfrozen) hoffer haddressed)

theorem createBurnNft_outcome (pub tokenId priv : Hex) (now : Int) :
    CreateOutcome P L (.createBurnNft pub tokenId priv now) pub priv now
      (createBurnNft P L pub tokenId priv now) := by
  unfold createBurnNft
  split
  · exact .refused _
  · rename_i hfrozen
    split
    · exact .refused _
    · rename_i howned
      rw [ne_eq, Decidable.not_not] at howned
      cases hhead : L.heldHead pub with
      | none => exact .thrown
      | some p =>
        obtain ⟨h, head⟩ := p
        obtain ⟨stored, last⟩ := heldHead_eq_some.mp hhead
        exact .drafted h head _ _ stored last
          (.nftBurn tokenId (by simpa using hfrozen) howned)

theorem createStorageRegister_outcome (pub : Hex) (capacityGB : F) (priv : Hex)
    (deviceId : Option String) (now : Int) :
    CreateOutcome P L (.createStorageRegister pub capacityGB priv deviceId now) pub priv now
      (createStorageRegister P L pub capacityGB priv deviceId now) := by
  unfold createStorageRegister
  cases hhead : L.heldHead pub with
  | none => exact .refused _
  | some p =>
    obtain ⟨h, head⟩ := p
    obtain ⟨stored, last⟩ := heldHead_eq_some.mp hhead
    simp only
    split
    · exact .refused _
    · rename_i hfrozen
      split
      · exact .refused _
      · rename_i hcapacity
        simp only [Bool.or_eq_true, Bool.not_eq_true', not_or, Bool.not_eq_false,
          Bool.not_eq_true] at hcapacity
        exact .drafted h head _ _ stored last (.storageRegister capacityGB deviceId
          (by simpa using hfrozen) hcapacity.1 hcapacity.2)

theorem createStorageDeregister_outcome (pub priv : Hex) (now : Int) :
    CreateOutcome P L (.createStorageDeregister pub priv now) pub priv now
      (createStorageDeregister P L pub priv now) := by
  unfold createStorageDeregister
  cases hhead : L.heldHead pub with
  | none => exact .refused _
  | some p =>
    obtain ⟨h, head⟩ := p
    obtain ⟨stored, last⟩ := heldHead_eq_some.mp hhead
    cases hprovider : L.providerLedger.providers.get? pub with
    | none => exact .refused _
    | some provider =>
      simp only
      split
      · exact .refused _
      · rename_i hcapacity
        refine .drafted h head _ _ stored last (.storageDeregister _ ?_)
        simpa [ProviderLedger.isRegistered, hprovider] using hcapacity

theorem createStorageSettle_outcome (pub priv : Hex) (receipts : List (SignedReceipt F))
    (periodIndex : F) (publishRoot serviceRoot : Option String) (now : Int) :
    CreateOutcome P L
      (.createStorageSettle pub priv receipts periodIndex publishRoot serviceRoot now) pub priv now
      (createStorageSettle P L pub priv receipts periodIndex publishRoot serviceRoot now) := by
  unfold createStorageSettle
  cases hhead : L.heldHead pub with
  | none => exact .refused _
  | some p =>
    obtain ⟨h, head⟩ := p
    obtain ⟨stored, last⟩ := heldHead_eq_some.mp hhead
    simp only
    split
    · exact .refused _
    · rename_i hregistered
      split
      · exact .refused _
      · rename_i hreceipts
        split
        · exact .refused _
        · rename_i hpositive
          split
          · exact .thrown
          · rename_i amount hfloor
            exact .drafted h head _ _ stored last
              (.storageSettle receipts periodIndex publishRoot serviceRoot _ amount
                (by simpa using hregistered) (by simpa using hreceipts) rfl
                ((Bool.not_eq_true _).mp hpositive) hfloor)

end Outcomes

/-! ## Appending a draft -/

section Append

variable [JsNumber F] {P : Primitives F} {L : EngineLedger F} {pub priv : Hex}
  {head : Block F} {now : Int} {c : Call F} {content : BlockContent F} {effect : Effect F}

theorem Draft.header (d : Draft P L pub priv head now c content effect) :
    content.accountId = pub ∧ content.index = head.index + 1 ∧
      content.previousHash = head.hash ∧ content.shard = head.shard := by
  cases d <;> exact ⟨rfl, rfl, rfl, rfl⟩

theorem Draft.sameChains (d : Draft P L pub priv head now c content effect) (L' : EngineLedger F)
    (b : Block F) : SameChains L' (effect L' b) := by
  cases d
  case update updates _ _ =>
    obtain ⟨_, _, h⟩ := applyAccountUpdate_eq L' pub updates
    constructor <;> simp [h]
  case nftMint =>
    obtain ⟨_, _, _, h⟩ := applyNftMint_eq L' b
    constructor <;> simp [h]
  case nftSend =>
    obtain ⟨_, _, _, h, _⟩ := applyNftSend_eq L' b
    constructor <;> simp [h]
  case nftReceive =>
    obtain ⟨_, _, _, _, h, _⟩ := applyNftReceive_eq L' b
    constructor <;> simp [h]
  case nftBurn =>
    obtain ⟨_, _, _, h⟩ := applyNftBurn_eq L' b
    constructor <;> simp [h]
  all_goals constructor <;> rfl

omit [JsNumber F] in
/-- Appending a draft either fails to sign, which touches the author's accumulator only,
or leaves the signed block behind the head and then runs its effect. -/
theorem appendOwn_cases (h : Held F) (content : BlockContent F) (priv : Hex)
    (effect : Effect F) :
    (∃ acc, appendOwn P L h content priv effect =
        (L.hold content.accountId ⟨h.chain, acc⟩, .thrown)) ∨
      ∃ acc block, createBlock P content priv h.acc = (acc, some block) ∧
        appendOwn P L h content priv effect =
          (effect ((L.hold content.accountId ⟨h.chain ++ [block], acc⟩).indexBlock block) block,
            .created block) := by
  unfold appendOwn
  cases hcreate : createBlock P content priv h.acc with
  | mk acc result =>
    cases result with
    | none => exact .inl ⟨acc, rfl⟩
    | some block => exact .inr ⟨acc, block, rfl, rfl⟩

/-- The call drafts `block` on the held chain `h` and signs it. -/
structure Signs (P : Primitives F) (L : EngineLedger F) (c : Call F) (pub priv : Hex) (now : Int)
    (h : Held F) (head block : Block F) (acc : AccountAccumulator) (effect : Effect F) :
    Prop where
  stored : L.held.get? pub = some h
  last : h.chain.getLast? = some head
  draft : Draft P L pub priv head now c block.toBlockContent effect
  signed : createBlock P block.toBlockContent priv h.acc = (acc, some block)

/-- The ledger with `block` appended to the chain `h` of `pub`, and then its effect. -/
def afterOwn (L : EngineLedger F) (pub : Hex) (h : Held F) (acc : AccountAccumulator)
    (effect : Effect F) (block : Block F) : EngineLedger F :=
  effect ((L.hold pub ⟨h.chain ++ [block], acc⟩).indexBlock block) block

/-- A `create*` call answers without a block and moves no chain, or appends the block it
signs and answers with it. -/
theorem CreateOutcome.signs {r : EngineLedger F × CreateResult F}
    (outcome : CreateOutcome P L c pub priv now r) :
    ((∀ block, r.2 ≠ .created block) ∧ ∀ x, r.1.getAccountChain x = L.getAccountChain x) ∨
      ∃ h head block acc effect, Signs P L c pub priv now h head block acc effect ∧
        r = (L.afterOwn pub h acc effect block, .created block) := by
  cases outcome with
  | refused error => exact .inl ⟨by simp, fun _ => rfl⟩
  | thrown => exact .inl ⟨by simp, fun _ => rfl⟩
  | drafted h head content effect stored last draft =>
    obtain ⟨haccount, -⟩ := draft.header
    rcases appendOwn_cases (P := P) (L := L) h content priv effect with
      ⟨acc, heq⟩ | ⟨acc, block, hcreate, heq⟩
    · rw [heq]
      refine .inl ⟨by simp, fun x => ?_⟩
      rw [getAccountChain_hold]
      split
      · rename_i hx
        rw [← hx, haccount, getAccountChain_of_held stored]
      · rfl
    · obtain ⟨rfl, -⟩ := createBlock_eq_some hcreate
      rw [haccount] at heq
      exact .inr ⟨h, head, block, acc, effect, ⟨stored, last, draft, hcreate⟩, heq⟩

theorem Signs.getAccountChain {h : Held F} {block : Block F} {acc : AccountAccumulator}
    (signs : Signs P L c pub priv now h head block acc effect) (x : Hex) :
    (L.afterOwn pub h acc effect block).getAccountChain x =
      if pub = x then L.getAccountChain x ++ [block] else L.getAccountChain x := by
  have hsame := signs.draft.sameChains
    ((L.hold pub ⟨h.chain ++ [block], acc⟩).indexBlock block) block
  refine (getAccountChain_congr hsame.held x).trans ?_
  change (L.hold pub ⟨h.chain ++ [block], acc⟩).getAccountChain x = _
  rw [getAccountChain_hold]
  split
  · rename_i hx
    rw [← hx, getAccountChain_of_held signs.stored]
  · rfl

end Append

end NeuronWeb.EngineLedger
