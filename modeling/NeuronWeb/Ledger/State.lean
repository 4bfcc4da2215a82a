/-
  Ledger/State: the state of the ledger and the effects its entry points share
  (`ledger/engine-ledger.ts`).

  One record holds every map and set of `EngineLedger`.  Events are not state and are
  left out.  The primitives and the configuration never change, so they are parameters
  of the operations (`P`, `cfg`) rather than fields.
-/
import NeuronWeb.Consensus.Fraud
import NeuronWeb.Consensus.Validators
import NeuronWeb.Consensus.Seed
import NeuronWeb.Consensus.Finality
import NeuronWeb.Content.ProviderLedger
import NeuronWeb.Core.CounterpartyProof

set_option autoImplicit false

namespace NeuronWeb

variable {F : Type}

/-- `MINT`: the free mint of the ledger, one million UNIT in milli-UNIT. -/
def MINT : Int := 1000000 * 1000

def DEFAULT_NUM_SHARDS : Int := 4096

/-- Target committee size for self-sortition. -/
def DEFAULT_COMMITTEE_SIZE : Int := 64

/-- How many past epochs of validator-weight snapshots are retained. -/
def EPOCH_WEIGHT_RETAIN : Int := 4

/-- The constructor arguments of the ledger. -/
structure LedgerConfig where
  numShards : Int := DEFAULT_NUM_SHARDS
  identityPolicy : QuorumPolicy := ⟨1, none, some ["personhood"]⟩

/-- Map an account to its shard; `none` when `numShards` is not positive and it throws. -/
def getShard (P : Primitives F) (accountId : Hex) (numShards : Int) : Option Int :=
  if numShards ≤ 0 then none
  else if numShards = 1 then some 0
  else some ((P.sha256 (utf8ToBytes accountId)).foldl
    (fun rem byte => (rem * 256 + (byte.toNat : Int)) % numShards) 0)

/-! ## State -/

structure Held (F : Type) where
  chain : List (Block F)
  acc : AccountAccumulator

structure LedgerAccount where
  username : String
  pub : Hex
  deriving DecidableEq, Repr, Inhabited

structure UnclaimedSend (F : Type) where
  fromPub : Hex
  toPub : Hex
  amount : F

structure UnclaimedNft where
  tokenId : Hex
  fromPub : Hex
  toPub : Hex
  deriving DecidableEq, Repr, Inhabited

/-- The latest block of one account's own chain that touches a token. -/
structure NftCustody where
  index : Int
  /-- Whether that block left the account holding the token. -/
  holds : Bool
  deriving DecidableEq, Repr, Inhabited

structure NftInfo where
  minter : Hex
  contentRef : String
  «meta» : List (String × String)
  deriving DecidableEq, Repr, Inhabited

/-- Validator weights frozen at an epoch boundary. -/
structure WeightSnapshot (F : Type) where
  total : F
  byId : JsMap Hex F

structure EngineLedger (F : Type) where
  held : JsMap Hex (Held F)
  accountsByPub : JsMap Hex LedgerAccount
  usernameToPub : JsMap String Hex
  identity : IdentityRegistry
  /-- Send hash to the send that no receive has claimed yet. -/
  unclaimedSends : JsMap Hex (UnclaimedSend F)
  /-- Source hashes that a receive has claimed. -/
  claimedSends : JsSet Hex
  claimedNftTransfers : JsSet Hex
  /-- Token to its current owner. -/
  nftOwner : JsMap Hex Hex
  /-- Token to each account's latest own-chain word on it. -/
  nftCustody : JsMap Hex (JsMap Hex NftCustody)
  nftInfo : JsMap Hex NftInfo
  unclaimedNftTransfers : JsMap Hex UnclaimedNft
  burnedNfts : JsSet Hex
  /-- Accounts proven to have equivocated, with the evidence. -/
  equivocated : JsMap Hex (DoubleSpendEvidence F)
  appliedAt : JsMap Hex Int
  validatorRegistry : ValidatorRegistry
  seeds : EpochSeeds
  epoch : Int
  committee : CommitteeFinality
  epochWeightSnapshots : JsMap Int (WeightSnapshot F)
  providerLedger : ProviderLedger F
  /-- All blocks by hash. -/
  allBlocks : JsMap Hex (Block F)

namespace EngineLedger

/-- `new EngineLedger(…)`. -/
def new (P : Primitives F) : EngineLedger F where
  held := JsMap.empty
  accountsByPub := JsMap.empty
  usernameToPub := JsMap.empty
  identity := JsMap.empty
  unclaimedSends := JsMap.empty
  claimedSends := JsMap.empty
  claimedNftTransfers := JsMap.empty
  nftOwner := JsMap.empty
  nftCustody := JsMap.empty
  nftInfo := JsMap.empty
  unclaimedNftTransfers := JsMap.empty
  burnedNfts := JsMap.empty
  equivocated := JsMap.empty
  appliedAt := JsMap.empty
  validatorRegistry := ValidatorRegistry.new MINT
  seeds := EpochSeeds.new P
  epoch := 0
  committee := CommitteeFinality.new
  epochWeightSnapshots := JsMap.empty
  providerLedger := ProviderLedger.new
  allBlocks := JsMap.empty

/-! ## Accounts and lookup -/

def registerAccount (L : EngineLedger F) (account : LedgerAccount) : EngineLedger F :=
  if L.accountsByPub.has account.pub then L
  else
    { L with
      accountsByPub := L.accountsByPub.set account.pub account
      usernameToPub :=
        if account.username = "" then L.usernameToPub
        else L.usernameToPub.set account.username account.pub }

/-- `updateAccountFields(pub, fields)`, of which the model keeps `fields.username`. -/
def updateAccountFields (L : EngineLedger F) (pub : Hex) (username : Option String) :
    EngineLedger F :=
  match L.accountsByPub.get? pub, username with
  | some acc, some nextUsername =>
    { L with
      accountsByPub := L.accountsByPub.set pub { acc with username := nextUsername }
      usernameToPub :=
        if nextUsername = "" ∨ nextUsername = acc.username then L.usernameToPub
        else (L.usernameToPub.delete acc.username).set nextUsername pub }
  | _, _ => L

/-- Apply a metadata patch to the local account record. -/
def applyAccountUpdate (L : EngineLedger F) (pub : Hex) (updates : List (String × String)) :
    EngineLedger F :=
  match L.accountsByPub.get? pub, JsMap.find "username" updates with
  | some acc, some username =>
    if username = "" ∨ username = acc.username then L
    else
      { L with
        usernameToPub := (L.usernameToPub.delete acc.username).set username pub
        accountsByPub := L.accountsByPub.set pub { acc with username } }
  | _, _ => L

def resolveToPublicKey (L : EngineLedger F) (identifier : String) : Option Hex :=
  if L.accountsByPub.has identifier then some identifier
  else L.usernameToPub.get? identifier

/-- `accountsByPub.get(pub)?.username`. -/
def usernameOf (L : EngineLedger F) (pub : Hex) : Option String :=
  (L.accountsByPub.get? pub).map LedgerAccount.username

/-! ## Chain state -/

def getAccountChain (L : EngineLedger F) (pub : Hex) : List (Block F) :=
  ((L.held.get? pub).map Held.chain).getD []

def getAccountHead (L : EngineLedger F) (pub : Hex) : Option (Block F) :=
  (L.getAccountChain pub).getLast?

/-- The balance shown for an account, void when it is frozen. -/
def getAccountBalance (L : EngineLedger F) (pub : Hex) : Int :=
  if L.equivocated.has pub then 0
  else ((L.getAccountHead pub).map fun head => head.balance).getD 0

/-! ## Native NFTs -/

/-- Token id: unique per minter, chain index and content. -/
def nftTokenId (P : Primitives F) (minter : Hex) (index : Int) (contentRef : String) : Hex :=
  hashHex P (utf8ToBytes ("nft:" ++ minter ++ ":" ++ toString index ++ ":" ++ contentRef))

/-- The accounts whose latest own-chain word on a token is that they hold it. -/
def holders (perAccount : JsMap Hex NftCustody) : List Hex :=
  (perAccount.entries.filter fun e => e.2.holds).map Prod.fst

/-- Re-derive the owner of a token from its custody records. -/
def recomputeNftOwner (L : EngineLedger F) (tokenId : Hex) : EngineLedger F :=
  if L.burnedNfts.has tokenId then { L with nftOwner := L.nftOwner.delete tokenId }
  else
    match L.nftCustody.get? tokenId with
    | none => L
    | some perAccount =>
      match holders perAccount with
      | [] => { L with nftOwner := L.nftOwner.delete tokenId }
      | [holder] => { L with nftOwner := L.nftOwner.set tokenId holder }
      | holder :: next :: rest =>
        -- two holders: keep the incumbent if it is among them, else the last one
        let all := holder :: next :: rest
        let last := (next :: rest).getLast (List.cons_ne_nil next rest)
        match L.nftOwner.get? tokenId with
        | some current =>
          if current = "" ∨ current ∉ all then
            { L with nftOwner := L.nftOwner.set tokenId last }
          else L
        | none => { L with nftOwner := L.nftOwner.set tokenId last }

/-- Is `index` beyond what the account has on record? -/
def supersedes (perAccount : JsMap Hex NftCustody) (accountId : Hex) (index : Int) : Bool :=
  match perAccount.get? accountId with
  | some prev => decide (prev.index < index)
  | none => true

/-- Record an account's latest own-chain position for a token, unless it is not newer
than what is recorded, and re-derive the owner. -/
def recordNftCustody (L : EngineLedger F) (tokenId accountId : Hex) (index : Int)
    (holds : Bool) : EngineLedger F :=
  let perAccount := (L.nftCustody.get? tokenId).getD JsMap.empty
  if supersedes perAccount accountId index then
    recomputeNftOwner { L with
      nftCustody := L.nftCustody.set tokenId (perAccount.set accountId ⟨index, holds⟩) } tokenId
  else L

/-- The record a mint block writes in `nftInfo`. -/
def mintInfo (b : BlockContent F) (contentRef : String) : NftInfo :=
  ⟨b.accountId, contentRef, b.nftMeta.getD []⟩

def applyNftMint (L : EngineLedger F) (b : Block F) : EngineLedger F :=
  match b.tokenId, b.contentRef with
  | some tokenId, some contentRef =>
    if tokenId = "" ∨ contentRef = "" then L
    else
      { L with nftInfo := L.nftInfo.set tokenId (mintInfo b.toBlockContent contentRef) }
        |>.recordNftCustody tokenId b.accountId b.index true
  | _, _ => L

def applyNftSend (L : EngineLedger F) (b : Block F) : EngineLedger F :=
  match b.tokenId, b.recipient with
  | some tokenId, some recipient =>
    if tokenId = "" ∨ recipient = "" then L
    else
      let L := L.recordNftCustody tokenId b.accountId b.index false
      if L.claimedNftTransfers.has b.hash then L
      else
        { L with unclaimedNftTransfers :=
            L.unclaimedNftTransfers.set b.hash ⟨tokenId, b.accountId, recipient⟩ }
  | _, _ => L

/-- Mark a transfer claimed and withdraw it from the offers. -/
def claimNftTransfer (L : EngineLedger F) (sourceHash : Option Hex) : EngineLedger F :=
  match sourceHash with
  | some source =>
    if source = "" then L
    else
      { L with
        claimedNftTransfers := JsSet.add L.claimedNftTransfers source
        unclaimedNftTransfers := L.unclaimedNftTransfers.delete source }
  | none => L

def applyNftReceive (L : EngineLedger F) (b : Block F) : EngineLedger F :=
  match b.tokenId with
  | some tokenId =>
    if tokenId = "" then L
    else (L.claimNftTransfer b.sourceHash).recordNftCustody tokenId b.accountId b.index true
  | none => L

def applyNftBurn (L : EngineLedger F) (b : Block F) : EngineLedger F :=
  match b.tokenId with
  | some tokenId =>
    if tokenId = "" then L
    else
      let L := { L with burnedNfts := JsSet.add L.burnedNfts tokenId }
      let L := L.recordNftCustody tokenId b.accountId b.index false
      { L with nftOwner := L.nftOwner.delete tokenId }
  | none => L

/-! ## Payments -/

/-- Mark a send claimed and withdraw it from the offers. -/
def claimSend (L : EngineLedger F) (source : Hex) : EngineLedger F :=
  { L with
    claimedSends := JsSet.add L.claimedSends source
    unclaimedSends := L.unclaimedSends.delete source }

def offerSend (L : EngineLedger F) (hash fromPub toPub : Hex) (amount : F) : EngineLedger F :=
  { L with unclaimedSends := L.unclaimedSends.set hash ⟨fromPub, toPub, amount⟩ }

/-- `allBlocks.set(block.hash, block)`. -/
def indexBlock (L : EngineLedger F) (b : Block F) : EngineLedger F :=
  { L with allBlocks := L.allBlocks.set b.hash b }

/-- Put a chain and its accumulator under an account. -/
def hold (L : EngineLedger F) (pub : Hex) (h : Held F) : EngineLedger F :=
  { L with held := L.held.set pub h }

/-! ## Freezing -/

/-- Freeze an account on evidence: void what it offers and burn its bond. -/
def freezeEquivocator (L : EngineLedger F) (ev : DoubleSpendEvidence F) :
    EngineLedger F × Bool :=
  if L.equivocated.has ev.accountId then (L, false)
  else
    ({ L with
      equivocated := L.equivocated.set ev.accountId ev
      unclaimedSends := L.unclaimedSends.filter fun _ s => s.fromPub ≠ ev.accountId
      unclaimedNftTransfers :=
        L.unclaimedNftTransfers.filter fun _ t => t.fromPub ≠ ev.accountId
      validatorRegistry := (L.validatorRegistry.slash ev.accountId).1 }, true)

/-- Locally-detected fork: build self-incriminating evidence and freeze the account. -/
def flagEquivocation (L : EngineLedger F) (a b : Block F) : EngineLedger F :=
  match proveDoubleSpend a b with
  | some ev => (L.freezeEquivocator ev).1
  | none => L

/-- Apply double-spend evidence received from the network. -/
def applyEvidence (P : Primitives F) (L : EngineLedger F) (ev : DoubleSpendEvidence F) :
    EngineLedger F × Bool :=
  if verifyDoubleSpend P ev then L.freezeEquivocator ev else (L, false)

/-- Apply evidence from two received blocks. -/
def applyEvidenceFromBlocks (P : Primitives F) (L : EngineLedger F) (a b : Block F) :
    EngineLedger F × Bool :=
  match proveDoubleSpend a b with
  | some ev => applyEvidence P L ev
  | none => (L, false)

end EngineLedger

end NeuronWeb
