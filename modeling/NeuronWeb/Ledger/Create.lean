/-
  Ledger/Create: the owner-signed entry points (`ledger/engine-ledger.ts`, `openAccount`
  and the `create*` family).

  Each entry point checks its guards in the order of the source and then hands the
  content of the new block to `appendOwn`, which builds, signs and appends it.  The
  clock reading `Date.now()` is an argument.
-/
import NeuronWeb.Ledger.State

set_option autoImplicit false

namespace NeuronWeb

variable {F : Type}

/-- What an owner-signed entry point answers. -/
inductive CreateResult (F : Type) where
  | created (block : Block F)
  | refused (error : String)
  /-- The call throws: a malformed key, an amount that is not a whole number. -/
  | thrown

namespace EngineLedger

/-- The held chain of an account together with its head. -/
def heldHead (L : EngineLedger F) (pub : Hex) : Option (Held F × Block F) :=
  (L.held.get? pub).bind fun h => h.chain.getLast?.map fun head => (h, head)

/-- The content every block built on `head` starts from. -/
def nextContent (head : Block F) (pub : Hex) (type : BlockType) (now balance : Int) :
    BlockContent F :=
  { accountId := pub, index := head.index + 1, type, previousHash := head.hash,
    shard := head.shard, timestamp := now, balance }

/-- Build and sign a block on the held chain `h`, append it, index it and apply `effect`.
When signing throws the accumulator has already been extended. -/
def appendOwn (P : Primitives F) (L : EngineLedger F) (h : Held F) (content : BlockContent F)
    (priv : Hex) (effect : EngineLedger F → Block F → EngineLedger F) :
    EngineLedger F × CreateResult F :=
  match createBlock P content priv h.acc with
  | (acc, none) => (L.hold content.accountId ⟨h.chain, acc⟩, .thrown)
  | (acc, some block) =>
    (effect ((L.hold content.accountId ⟨h.chain ++ [block], acc⟩).indexBlock block) block,
      .created block)

/-- Bond stake to become or strengthen a validator; the reason for a refusal, if any. -/
def bondStake (L : EngineLedger F) (pub : Hex) (amount : Option Int := none) :
    EngineLedger F × Option String :=
  match L.getAccountHead pub with
  | none => (L, some "account not opened")
  | some head =>
    if L.equivocated.has pub then (L, some "account frozen")
    else
      let free := head.balance - L.validatorRegistry.bondedOf pub
      let amt := amount.getD free
      if amt ≤ 0 then (L, some "nothing to bond")
      else if amt > free then (L, some "amount exceeds free balance")
      else
        let (registry, reason) := L.validatorRegistry.bond pub amt
        ({ L with validatorRegistry := registry }, reason)

/-! ## Opening an account -/

/-- Open an account: dedup by nullifier, attestation quorum, then the genesis block.
A refusal is a rejected promise with that message. -/
def openAccount (P : Primitives F) (cfg : LedgerConfig) (L : EngineLedger F)
    (pub priv nullifier : Hex) (attestations : List TypedAttestation) (bond : Bool)
    (now : Int) : EngineLedger F × CreateResult F :=
  if L.held.has pub then (L, .refused "Account already opened")
  else
    let commitment := deriveCommitment P nullifier pub
    let quorum := checkQuorum P attestations commitment cfg.identityPolicy
    if !quorum.ok then
      (L, .refused ("Identity quorum failed: " ++ quorum.reason.getD "undefined"))
    else
      match L.identity.register P nullifier commitment pub with
      | .error reason => (L, .refused reason)
      | .ok identity =>
        let L := { L with identity }
        match getShard P pub cfg.numShards with
        | none => (L, .thrown)
        | some shard =>
          let content : BlockContent F :=
            { accountId := pub, index := 0, type := .open, previousHash := GENESIS_PREV,
              shard, timestamp := now, balance := MINT,
              identityCommitment := some commitment, attestations := some attestations }
          match createBlock P content priv [] with
          | (_, none) => (L, .thrown)
          | (acc, some block) =>
            let L := (L.hold pub ⟨[block], acc⟩).indexBlock block
            (if bond then (L.bondStake pub (some MINT)).1 else L, .created block)

/-! ## Payments and account updates -/

def createSend [JsNumber F] (P : Primitives F) (L : EngineLedger F) (senderPub : Hex)
    (recipientIdentifier : String) (amount : F) (priv : Hex) (now : Int) :
    EngineLedger F × CreateResult F :=
  match L.resolveToPublicKey recipientIdentifier with
  | none => (L, .refused "Recipient not found")
  | some recipientPub =>
    if recipientPub = "" then (L, .refused "Recipient not found")
    else
      match L.heldHead senderPub with
      | none => (L, .refused "Account not opened")
      | some (h, head) =>
        if JsNumber.le amount (JsNumber.ofInt 0) then
          (L, .refused "Amount must be positive")
        else
          match JsNumber.toBigInt (JsNumber.round amount) with
          | none => (L, .thrown)
          | some amt =>
            let available := head.balance - L.validatorRegistry.bondedOf senderPub
            if available < amt then (L, .refused "Insufficient balance")
            else
              appendOwn P L h
                { nextContent head senderPub .send now (head.balance - amt) with
                  recipient := some recipientPub
                  amount := some amt
                  recipientName := L.usernameOf recipientPub }
                priv fun L block => L.offerSend block.hash senderPub recipientPub amount

def createReceive [JsNumber F] (P : Primitives F) (L : EngineLedger F) (recipientPub : Hex)
    (sendBlockHash priv : Hex) (now : Int) : EngineLedger F × CreateResult F :=
  match L.unclaimedSends.get? sendBlockHash with
  | none => (L, .refused "Send block not found or already claimed")
  | some unclaimed =>
    if unclaimed.toPub ≠ recipientPub then
      (L, .refused "This send is not addressed to you")
    else
      match L.heldHead recipientPub with
      | none => (L, .refused "Account not opened")
      | some (h, head) =>
        match JsNumber.toBigInt (JsNumber.round unclaimed.amount) with
        | none => (L, .thrown)
        | some amt =>
          appendOwn P L h
            { nextContent head recipientPub .receive now (head.balance + amt) with
              sourceHash := some sendBlockHash
              amount := some amt
              senderPub := some unclaimed.fromPub
              senderName := L.usernameOf unclaimed.fromPub }
            priv fun L _ => L.claimSend sendBlockHash

def createUpdate (P : Primitives F) (L : EngineLedger F) (pub : Hex)
    (updates : List (String × String)) (priv : Hex) (now : Int) :
    EngineLedger F × CreateResult F :=
  match L.heldHead pub with
  | none => (L, .refused "Account not opened")
  | some (h, head) =>
    if L.equivocated.has pub then (L, .refused "Account frozen")
    else if updates.isEmpty then (L, .refused "No updates provided")
    else
      appendOwn P L h
        { nextContent head pub .update now head.balance with updates := some updates }
        priv fun L _ => L.applyAccountUpdate pub updates

/-! ## Native NFTs -/

def createMintNft (P : Primitives F) (L : EngineLedger F) (pub : Hex) (contentRef : String)
    («meta» : List (String × String)) (priv : Hex) (now : Int) :
    EngineLedger F × CreateResult F :=
  match L.heldHead pub with
  | none => (L, .refused "Account not opened")
  | some (h, head) =>
    if L.equivocated.has pub then (L, .refused "Account frozen")
    else if contentRef = "" then (L, .refused "contentRef required")
    else
      appendOwn P L h
        { nextContent head pub .nftMint now head.balance with
          tokenId := some (nftTokenId P pub (head.index + 1) contentRef)
          contentRef := some contentRef
          nftMeta := some «meta» }
        priv applyNftMint

def createTransferNft (P : Primitives F) (L : EngineLedger F) (pub tokenId : Hex)
    (recipientIdentifier : String) (priv : Hex) (now : Int) :
    EngineLedger F × CreateResult F :=
  match L.resolveToPublicKey recipientIdentifier with
  | none => (L, .refused "Recipient not found")
  | some recipientPub =>
    if recipientPub = "" then (L, .refused "Recipient not found")
    else if L.equivocated.has pub then (L, .refused "Account frozen")
    else if L.nftOwner.get? tokenId ≠ some pub then (L, .refused "You do not own this NFT")
    else
      match L.heldHead pub with
      | none => (L, .thrown)
      | some (h, head) =>
        appendOwn P L h
          { nextContent head pub .nftSend now head.balance with
            tokenId := some tokenId
            recipient := some recipientPub
            recipientName := L.usernameOf recipientPub }
          priv applyNftSend

def createReceiveNft (P : Primitives F) (L : EngineLedger F) (recipientPub nftSendHash : Hex)
    (priv : Hex) (now : Int) : EngineLedger F × CreateResult F :=
  if L.equivocated.has recipientPub then (L, .refused "Account frozen")
  else
    match L.unclaimedNftTransfers.get? nftSendHash with
    | none => (L, .refused "NFT transfer not found or already claimed")
    | some unclaimed =>
      if unclaimed.toPub ≠ recipientPub then
        (L, .refused "This NFT is not addressed to you")
      else
        match L.heldHead recipientPub with
        | none => (L, .refused "Account not opened")
        | some (h, head) =>
          appendOwn P L h
            { nextContent head recipientPub .nftReceive now head.balance with
              tokenId := some unclaimed.tokenId
              sourceHash := some nftSendHash
              senderPub := some unclaimed.fromPub
              senderName := L.usernameOf unclaimed.fromPub }
            priv applyNftReceive

def createBurnNft (P : Primitives F) (L : EngineLedger F) (pub tokenId priv : Hex)
    (now : Int) : EngineLedger F × CreateResult F :=
  if L.equivocated.has pub then (L, .refused "Account frozen")
  else if L.nftOwner.get? tokenId ≠ some pub then (L, .refused "You do not own this NFT")
  else
    match L.heldHead pub with
    | none => (L, .thrown)
    | some (h, head) =>
      appendOwn P L h
        { nextContent head pub .nftBurn now head.balance with tokenId := some tokenId }
        priv applyNftBurn

/-! ## Storage economy -/

section Storage

variable [JsNumber F] (P : Primitives F)

/-- Fold a storage block into the provider ledger. -/
def applyStorage (L : EngineLedger F) (block : Block F) : EngineLedger F :=
  { L with providerLedger := ProviderLedger.apply P L.providerLedger block.toBlockContent }

def appendStorageBlock (L : EngineLedger F) (h : Held F) (head : Block F) (pub priv : Hex)
    (type : BlockType) (balance : Int) (storage : StoragePayload F) (amount : Option Int)
    (now : Int) : EngineLedger F × CreateResult F :=
  appendOwn P L h
    { nextContent head pub type now balance with storage := some storage, amount }
    priv (applyStorage P)

def createStorageRegister (L : EngineLedger F) (pub : Hex) (capacityGB : F) (priv : Hex)
    (deviceId : Option String) (now : Int) : EngineLedger F × CreateResult F :=
  match L.heldHead pub with
  | none => (L, .refused "Account not opened")
  | some (h, head) =>
    if L.equivocated.has pub then (L, .refused "Account frozen")
    else if !JsNumber.isFinite capacityGB || JsNumber.le capacityGB (JsNumber.ofInt 0) then
      (L, .refused "capacityGB must be a positive number")
    else
      L.appendStorageBlock P h head pub priv .storageRegister head.balance
        { capacityGB := some capacityGB, deviceId := deviceId.filter (· ≠ "") } none now

def createStorageDeregister (L : EngineLedger F) (pub priv : Hex) (now : Int) :
    EngineLedger F × CreateResult F :=
  match L.heldHead pub with
  | none => (L, .refused "Account not opened")
  | some (h, head) =>
    match L.providerLedger.providers.get? pub with
    | none => (L, .refused "Not a registered storage provider")
    | some provider =>
      if JsNumber.le provider.capacityGB (JsNumber.ofInt 0) then
        (L, .refused "Not a registered storage provider")
      else
        L.appendStorageBlock P h head pub priv .storageDeregister head.balance
          { capacityGB := some provider.capacityGB } none now

def createStorageSettle (L : EngineLedger F) (pub priv : Hex)
    (receipts : List (SignedReceipt F)) (periodIndex : F)
    (publishRoot serviceRoot : Option String) (now : Int) :
    EngineLedger F × CreateResult F :=
  match L.heldHead pub with
  | none => (L, .refused "Account not opened")
  | some (h, head) =>
    if !L.providerLedger.isRegistered pub then
      (L, .refused "Not a registered storage provider")
    else if receipts.isEmpty then (L, .refused "No receipts to settle")
    else
      let storage : StoragePayload F :=
        { periodIndex := some periodIndex, receipts := some receipts
          publishRoot := publishRoot.filter (· ≠ "")
          serviceRoot := serviceRoot.filter (· ≠ "") }
      let credit := ProviderLedger.settlementCredit P L.providerLedger pub (some storage)
      if JsNumber.le credit.payableBytes (JsNumber.ofInt 0) then
        (L, .refused ("Nothing payable: " ++ credit.reason))
      else
        match JsNumber.toBigInt (JsNumber.floor credit.payableBytes) with
        | none => (L, .thrown)
        | some amount =>
          L.appendStorageBlock P h head pub priv .storageSettle (head.balance + amount)
            storage (some amount) now

end Storage

end EngineLedger

end NeuronWeb
