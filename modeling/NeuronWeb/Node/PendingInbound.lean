/-
  Node/PendingInbound: finding and claiming what arrived while a client was away
  (`network/account-resolver.ts`, `network/node.ts`).

  The archives are asked which transfers are addressed to an account and how far they know its
  chain. Every pass that appends a receive first compares its own head with the highest index
  that an archive names (`ownChainIsCurrent`); a transfer of a chain that is not held is claimed
  on a proof packet, the first one of the answers that decodes.
-/
import NeuronWeb.Directory.Records
import NeuronWeb.Ledger.Moves

set_option autoImplicit false

namespace NeuronWeb

variable {F : Type} [JsNumber F]

/-! ## Pending sends -/

/-- One row of an answer to "which sends are addressed to this account?" -/
structure PendingSendHint where
  sender : Hex
  blockHash : Hex
  deriving DecidableEq, Repr

structure PendingSends (F : Type) where
  headIndex : F
  byHash : JsMap Hex PendingSendHint

namespace PendingSends

/-- `Number(body.headIndex ?? -1)`, and `-1` for a bare array; `none` when it throws. -/
def headOf (T : JsText F) : Json F → Option F
  | .arr _ => some (JsNumber.ofInt (-1))
  | body =>
    match body.property "headIndex" with
    | none | some .null => some (JsNumber.ofInt (-1))
    | some v => Json.toNumber T.parse (some v)

/-- `body.sends ?? []`, or the bare array; `none` when a loop cannot run over it. -/
def rowsOf : Json F → Option (List (Json F))
  | .arr rows => some rows
  | body => Json.iterated (body.property "sends")

/-- A row that names a sender and a block. -/
def hintOf (row : Json F) : Option PendingSendHint :=
  match Json.asString (row.property "sender"), Json.asString (row.property "blockHash") with
  | some sender, some blockHash => some ⟨sender, blockHash⟩
  | _, _ => none

def keepHint (byHash : JsMap Hex PendingSendHint) (row : Json F) : JsMap Hex PendingSendHint :=
  match hintOf row with
  | some hint => byHash.set hint.blockHash hint
  | none => byHash

/-- One answer; a failed request and a falsy body add nothing. -/
def take (T : JsText F) (found : PendingSends F) (answer : Option (Json F)) :
    Option (PendingSends F) :=
  match answer with
  | none => some found
  | some body =>
    if body.falsy then some found
    else
      match headOf T body, rowsOf body with
      | some index, some rows =>
        some ⟨JsNumber.max found.headIndex index, rows.foldl keepHint found.byHash⟩
      | _, _ => none

end PendingSends

/-- `fetchPendingSends`, on the answers in the order of the relays; `none` when the fold
throws. -/
def fetchPendingSends (T : JsText F) (answers : List (Option (Json F))) :
    Option (PendingSends F) :=
  answers.foldlM (PendingSends.take T) ⟨JsNumber.ofInt (-1), JsMap.empty⟩

/-! ## Proof packets -/

section Packets

variable (R : BlockReader F)

/-- `decodeBlock(hexToBytes(v))`; `none` when it throws. -/
def blockOfHex (v : Option (Json F)) : Option (Block F) :=
  (Json.asString v).bind fun s => (hexToBytes s).bind (decodeBlock R)

/-- An audit path.  An item that is no text is like a text that is no hex: the check of the
path throws on both. -/
def auditPathOf : Option (Json F) → Option (List Hex)
  | some (.arr items) => some (items.map fun item => (Json.asString (some item)).getD "-")
  | _ => none

/-- The proof that an answer carries, the block and its path under the given fields. -/
def chainProofOf (blockKey pathKey : String) (p : Json F) : Option (ChainProof F) := do
  let openBlock ← blockOfHex R (p.property "openHex")
  let headBlock ← blockOfHex R (p.property "headHex")
  let block ← blockOfHex R (p.property blockKey)
  let openInclusionProof ← auditPathOf (p.property "openProof")
  let blockInclusionProof ← auditPathOf (p.property pathKey)
  return { openBlock, headBlock, openInclusionProof, block, blockInclusionProof }

/-- The first proof that decodes. -/
def firstProof (blockKey pathKey : String) (answers : List (Option (Json F))) :
    Option (ChainProof F) :=
  answers.findSome? fun answer => answer.bind (chainProofOf R blockKey pathKey)

def fetchHeadProof (answers : List (Option (Json F))) : Option (CounterpartyPacket F) :=
  (firstProof R "sendHex" "sendProof" answers).map fun proof =>
    { openBlock := proof.openBlock, headBlock := proof.headBlock
      openInclusionProof := proof.openInclusionProof
      sendBlock := proof.block, sendInclusionProof := proof.blockInclusionProof }

def fetchMintProof (answers : List (Option (Json F))) : Option (MintProof F) :=
  (firstProof R "mintHex" "mintProof" answers).map fun proof =>
    { openBlock := proof.openBlock, headBlock := proof.headBlock
      openInclusionProof := proof.openInclusionProof
      mintBlock := proof.block, mintInclusionProof := proof.blockInclusionProof }

end Packets

/-! ## The passes -/

/-- What the archives answer to each request of a pass, in the order of the relays; `none`
is a request that failed. -/
structure Archives (F : Type) where
  /-- `/pending-sends` for an account. -/
  pendingSends : Hex → List (Option (Json F))
  /-- `/head-proof` for a sender and the hash of its block. -/
  headProof : Hex → Hex → List (Option (Json F))
  /-- `/token` for a token. -/
  token : Hex → List (Option (Json F))

/-- What a pass of a client runs with. -/
structure InboundPass (F : Type) where
  primitives : Primitives F
  config : LedgerConfig
  reader : BlockReader F
  text : JsText F
  archives : Archives F
  /-- Account to its engine private key. -/
  localKeys : JsMap Hex Hex
  /-- `Date.now()` when a transfer is claimed. -/
  clock : Hex → Int

/-- `getAccountHead(pub)?.index ?? -1`. -/
def localHead (L : EngineLedger F) (pub : Hex) : Int :=
  ((L.getAccountHead pub).map fun head => head.index).getD (-1)

namespace EngineLedger

/-- `getUnclaimedForAccount(pub)`, the hashes. -/
def getUnclaimedForAccount (L : EngineLedger F) (pub : Hex) : List Hex :=
  (L.unclaimedSends.filter fun _ s => decide (s.toPub = pub)).keys

/-- `getUnclaimedNftsForAccount(pub)`, the hashes. -/
def getUnclaimedNftsForAccount (L : EngineLedger F) (pub : Hex) : List Hex :=
  (L.unclaimedNftTransfers.filter fun _ t => decide (t.toPub = pub)).keys

end EngineLedger

namespace InboundPass

variable (p : InboundPass F) (L : EngineLedger F)

/-- The archives name a higher index than that of the local head. -/
def behind (found : PendingSends F) (pub : Hex) : Bool :=
  JsNumber.lt (JsNumber.ofInt (localHead L pub)) found.headIndex

/-- `ownChainIsCurrent(pub)`: an exception counts as permission. -/
def ownChainIsCurrent (pub : Hex) : Bool :=
  match fetchPendingSends p.text (p.archives.pendingSends pub) with
  | some found => !behind L found pub
  | none => true

/-- Append the receive for a transfer, as every pass does; `false` when a call throws. -/
def receive (nft : Bool) (pub hash priv : Hex) : EngineLedger F × Bool :=
  let (L, result) :=
    if nft then L.createReceiveNft p.primitives pub hash priv (p.clock hash)
    else L.createReceive p.primitives pub hash priv (p.clock hash)
  match result with
  | .refused _ => (L, true)
  | .thrown => (L, false)
  | .created block =>
    match EngineLedger.addBlock p.primitives L block (p.clock hash) with
    | (L, .thrown) => (L, false)
    | (L, _) => (L, true)

/-- The timer that `autoReceiveEngine(block)` starts, when it fires. -/
def autoReceiveEngine (block : Block F) : EngineLedger F :=
  if block.type ≠ .send ∧ block.type ≠ .nftSend then L
  else
    match block.recipient with
    | none => L
    | some recipient =>
      match p.localKeys.get? recipient with
      | none => L
      | some priv =>
        if recipient = "" then L
        else if L.equivocated.has block.accountId then L
        else if p.ownChainIsCurrent L recipient = false then L
        else (p.receive L (decide (block.type = .nftSend)) recipient block.hash priv).1

/-- The loop over what one account has to claim. -/
def receiveAll (nft : Bool) (pub priv : Hex) : EngineLedger F → List Hex → EngineLedger F × Bool
  | L, [] => (L, true)
  | L, hash :: rest =>
    match p.receive L nft pub hash priv with
    | (L, true) => receiveAll nft pub priv L rest
    | (L, false) => (L, false)

/-- One account of `sweepUnclaimedReceives`. -/
def sweepAccount (pub priv : Hex) : EngineLedger F × Bool :=
  let hasWork := !(L.getUnclaimedForAccount pub).isEmpty ||
    !(L.getUnclaimedNftsForAccount pub).isEmpty
  if hasWork && !p.ownChainIsCurrent L pub then (L, true)
  else
    match p.receiveAll false pub priv L (L.getUnclaimedForAccount pub) with
    | (L, true) => p.receiveAll true pub priv L (L.getUnclaimedNftsForAccount pub)
    | (L, false) => (L, false)

def sweepAccounts : EngineLedger F → List (Hex × Hex) → EngineLedger F
  | L, [] => L
  | L, (pub, priv) :: rest =>
    match p.sweepAccount L pub priv with
    | (L, true) => sweepAccounts L rest
    | (L, false) => L

def sweepUnclaimedReceives : EngineLedger F := p.sweepAccounts L p.localKeys.entries

/-- Fetch and register the mint record of the token that a transfer moves, unless it is
known; `false` when the transfer is not registered without it. -/
def describeToken (send : Block F) : EngineLedger F × Bool :=
  if send.type ≠ .nftSend then (L, true)
  else
    match send.tokenId with
    | none => (L, false)
    | some tokenId =>
      if tokenId = "" then (L, false)
      else if L.nftInfo.has tokenId then (L, true)
      else
        match fetchMintProof p.reader (p.archives.token tokenId) with
        | none => (L, false)
        | some mint =>
          match L.registerVerifiedMint p.primitives p.config mint tokenId with
          | (L, .ok) => (L, true)
          | (L, _) => (L, false)

/-- `claimViaProof(pub, sender, hash)`: the ledger, and the transfer whose timer is
started. -/
def claimViaProof (pub sender hash : Hex) : EngineLedger F × Option (Block F) :=
  if p.ownChainIsCurrent L pub = false then (L, none)
  else
    match fetchHeadProof p.reader (p.archives.headProof sender hash) with
    | none => (L, none)
    | some packet =>
      if packet.sendBlock.hash ≠ hash then (L, none)
      else
        match p.describeToken L packet.sendBlock with
        | (L, false) => (L, none)
        | (L, true) =>
          match L.registerVerifiedSend p.primitives p.config packet pub with
          | (L, .ok) => (L, some packet.sendBlock)
          | (L, _) => (L, none)

/-- The loop of `checkPendingInbound`; what is held already is skipped. -/
def claimHints (pub : Hex) : EngineLedger F → List PendingSendHint → EngineLedger F × List (Block F)
  | L, [] => (L, [])
  | L, hint :: rest =>
    if L.allBlocks.has hint.blockHash then claimHints pub L rest
    else
      let (L, timer) := p.claimViaProof L pub hint.sender hint.blockHash
      let (L, timers) := claimHints pub L rest
      (L, timer.toList ++ timers)

/-- `checkPendingInbound(pub)`: the ledger, and the transfers whose timers are started. -/
def checkPendingInbound (pub : Hex) : EngineLedger F × List (Block F) :=
  match fetchPendingSends p.text (p.archives.pendingSends pub) with
  | none => (L, [])
  | some found => if behind L found pub then (L, []) else p.claimHints pub L found.byHash.values

end InboundPass

/-- The passes that claim. -/
inductive ClaimPass (F : Type) where
  | checkPendingInbound (pub : Hex)
  | claimViaProof (pub sender hash : Hex)
  | autoReceiveEngine (block : Block F)
  | sweepUnclaimedReceives

/-- The ledger after a pass, with the timers that it started fired. -/
def InboundPass.run (p : InboundPass F) (L : EngineLedger F) : ClaimPass F → EngineLedger F
  | .checkPendingInbound pub =>
    let (L, timers) := p.checkPendingInbound L pub
    timers.foldl p.autoReceiveEngine L
  | .claimViaProof pub sender hash =>
    let (L, timer) := p.claimViaProof L pub sender hash
    timer.toList.foldl p.autoReceiveEngine L
  | .autoReceiveEngine block => p.autoReceiveEngine L block
  | .sweepUnclaimedReceives => p.sweepUnclaimedReceives L

end NeuronWeb
