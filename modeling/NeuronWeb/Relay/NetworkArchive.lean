/-
  Relay/NetworkArchive: what one relay archives and answers for two networks
  (`relay/server.ts`).

  Testnet and mainnet are kept in the same stores. An account record is kept under its network
  and its account, and a face carries its network. A block is kept under its hash, a key blob
  under its account, an attested name under the name, a provisional claim under the account and
  the requests of an address under the address: those entries say at most which network they
  came from.
-/
import NeuronWeb.Recovery.KeyBlobs
import NeuronWeb.Relay.ForkEvidence
import NeuronWeb.Relay.Resets

set_option autoImplicit false

namespace NeuronWeb

variable {F : Type} [JsNumber F]

structure NetworkArchive (F : Type) where
  engineBlockStore : JsMap Hex (StoredBlock F)
  /-- `${network}:${pub}` → record. -/
  accountStore : JsMap String (AccountRow F)
  /-- The key blobs, with `ARCHIVE_ENABLED` and the requests of each address. -/
  blobs : KeyBlobRelay F
  /-- The challenge sessions, the faces, the names and the provisional claims. -/
  gate : Relay F
  currentGeneration : F
  /-- The verify handlers of each network; `none` has returned. -/
  handlers : Network → List (Option (VerifyFrame F))

/-- The body of an answer with proofs: `openHex`, `headHex`, then `sendHex` or `mintHex`. -/
structure ArchivePacket (F : Type) where
  opening : Block F
  head : Block F
  item : Block F
  openProof : List Hex
  itemProof : List Hex

/-- An element of `sends`. -/
structure PendingSend where
  sender : Hex
  blockHash : Hex
  shard : Int
  type : BlockType

namespace NetworkArchive

/-- A relay that has archived nothing. -/
def new (archiveEnabled : Bool) (generation : F) : NetworkArchive F :=
  ⟨.empty, .empty, ⟨archiveEnabled, .empty, .empty⟩, Relay.new, generation, fun _ => []⟩

/-! ## Writes -/

section Writes

variable (P : Primitives F) (cfg : RelayConfig F) (T : JsText F) (s : NetworkArchive F)

/-- `archiveEngineBlock(blockHex, network)`; the block is `none` where the hex does not
decode. -/
def archiveEngineBlock (block : Option (Block F)) (network : Network) : NetworkArchive F :=
  match block with
  | none => s
  | some block =>
    if s.blobs.archiveEnabled = false ∨ verifyBlock P block = false then s
    else if s.engineBlockStore.has block.hash then s
    else
      { s with
        engineBlockStore := s.engineBlockStore.set block.hash
          ⟨block.hash, block.accountId, block.index, block.shard, network.name, block⟩
        gate :=
          if block.type = .open then
            { s.gate with pendingFaceUses := s.gate.pendingFaceUses.delete block.accountId }
          else s.gate }

/-- A message on an `/accounts` topic. -/
def archiveAccount (acc : Json F) (network : Network) : NetworkArchive F :=
  if s.blobs.archiveEnabled = false then s
  else { s with accountStore := archiveAccountRecord P T s.accountStore acc network }

/-- POST `/face-verify/verify` up to the hash of the descriptor. -/
def verify (req : VerifyRequest F) (now : Int) : NetworkArchive F :=
  match req.accountId.filter (· ≠ ""), s.gate.sessions.get? req.challengeId,
      Relay.validateDescriptor req.descriptor with
  | some accountId, some session, some descriptor =>
    if session.type = "recovery" ∨ session.used = true ∨
        Relay.CHALLENGE_TTL_MS < now - session.createdAt then s
    else
      { s with
        handlers := Function.update s.handlers req.network
          (s.handlers req.network ++ [some (.hashing req accountId descriptor)]) }
  | _, _, _ => s

/-- The turn of a verify handler whose `await` is over; `uuid` is what `randomUUID()` returns. -/
def resume (network : Network) (k : Nat) (uuid : String) (now : Int) : NetworkArchive F :=
  match (s.handlers network)[k]? with
  | some (some (.hashing req accountId descriptor)) =>
    let committed := Relay.commit P cfg s.gate req accountId descriptor uuid now
    { s with
      gate := committed.1
      handlers := Function.update s.handlers network
        ((s.handlers network).set k committed.2.toOption) }
  | some (some (.saving req accountId nid faceCount)) =>
    { s with
      gate := (Relay.attest P cfg s.gate req accountId nid faceCount now).1
      handlers := Function.update s.handlers network ((s.handlers network).set k none) }
  | _ => s

/-- A message on a `/generation` topic: the wipe of both networks when an operator has signed
it. -/
def onGeneration (network : Network) (m : Json F) : NetworkArchive F :=
  let resets := ResetRelay.start s.gate s.currentGeneration
  match resets.authorized P T.parse network m with
  | none => s
  | some reset =>
    let wiped := resets.performNetworkWipe (resets.target reset)
    { s with
      engineBlockStore := .empty
      accountStore := .empty
      blobs := { s.blobs with keyBlobStore := .empty }
      gate := wiped.relay
      currentGeneration := wiped.currentGeneration }

end Writes

/-! ## Answers -/

/-- What a relay is asked; a parameter that is missing is empty. -/
inductive Query (F : Type) where
  | block (hash : String)
  | headProof (pub send : String)
  | token (tokenId : String)
  | pendingSends (pub : String)
  | resolve (query : ResolveQuery)
  | keyBlob (ip username pub : String)
  /-- A message on an `/engine-delta-req/` topic; `haveIndex` is -1 when it is no number. -/
  | delta (accountId : String) (shard haveIndex : F)

inductive Answer (F : Type) where
  | block (block : Block F)
  | packet (packet : ArchivePacket F)
  | sends (headIndex : Int) (sends : List PendingSend)
  | record (record : Json F)
  | keyBlob (answer : KeyBlobAnswer F)
  /-- What is published on the `/engine-blocks/` topic of the shard. -/
  | blocks (shard : F) (blocks : List (Block F))
  | error (status : Nat) (message : String)
  /-- The handler throws, and the server answers 500. -/
  | crashed

section Answers

variable (P : Primitives F) (T : JsText F) (s : NetworkArchive F)

/-- The archived rows of a network. -/
def rowsOf (network : Network) : List (StoredBlock F) :=
  s.engineBlockStore.values.filter fun r => r.network = network.name

/-- `.sort((a, b) => a.index - b.index)`. -/
def sortByIndex (rows : List (StoredBlock F)) : List (StoredBlock F) :=
  rows.mergeSort fun a b => decide (a.index ≤ b.index)

/-- The rows of an account. -/
def chainOf (network : Network) (pub : String) : List (StoredBlock F) :=
  sortByIndex ((s.rowsOf network).filter fun r => r.accountId = pub)

def contiguous (rows : List (StoredBlock F)) : Bool :=
  !rows.isEmpty && rows.zipIdx.all fun r => decide (r.1.index = r.2)

/-- The packet that ties the open block and another one into the head; `none` where the
accumulator throws. -/
def packetOf (rows : List (StoredBlock F)) (item : StoredBlock F) : Option (ArchivePacket F) := do
  let opening ← rows.head?
  let head ← rows.getLast?
  let acc ← rows.foldlM (fun (acc : AccountAccumulator) r => acc.append r.hash) []
  let openProof ← acc.proofHex P 0
  let itemProof ← acc.proofHex P item.index
  return ⟨opening.block, head.block, item.block, openProof, itemProof⟩

/-- The answer on a chain in which a row was found. -/
def answerPacket (rows : List (StoredBlock F)) (item : Option (StoredBlock F))
    (message : String) : Answer F :=
  match item with
  | none => .error 404 message
  | some item =>
    if contiguous rows = false then .error 404 message
    else
      match packetOf P rows item with
      | some packet => .packet packet
      | none => .crashed

/-- `/block`. -/
def answerBlock (network : Network) (hash : String) : Answer F :=
  match (s.engineBlockStore.get? hash).filter fun row => row.network = network.name with
  | some row => .block row.block
  | none => .error 404 "not found"

/-- `/head-proof`. -/
def answerHeadProof (network : Network) (pub send : String) : Answer F :=
  let rows := s.chainOf network pub
  answerPacket P rows (rows.find? fun r => r.hash = send) "chain incomplete or send unknown"

/-- `/token`. -/
def answerToken (network : Network) (tokenId : String) : Answer F :=
  let mintRow := (s.rowsOf network).find? fun r =>
    r.block.type = .nftMint && r.block.tokenId = some tokenId
  let rows := match mintRow with
    | some mintRow => s.chainOf network mintRow.accountId
    | none => []
  answerPacket P rows mintRow "token unknown or minter chain incomplete"

/-- `/pending-sends`. -/
def answerPendingSends (network : Network) (pub : String) : Answer F :=
  if pub = "" then .sends (-1) []
  else
    .sends
      ((s.rowsOf network).foldl
        (fun headIndex r =>
          if r.accountId = pub ∧ headIndex < r.index then r.index else headIndex) (-1))
      ((s.rowsOf network).filterMap fun r =>
        if (r.block.type = .send ∨ r.block.type = .nftSend) ∧ r.block.recipient = some pub then
          some ⟨r.accountId, r.hash, r.shard, r.block.type⟩
        else none)

/-- `/resolve`. -/
def answerResolve (network : Network) (query : ResolveQuery) : Answer F :=
  match DirectoryRelay.resolve T ⟨s.accountStore, s.gate.usernameRegistry⟩ network query with
  | some record => .record record
  | none => .error 404 "not found"

/-- `serveEngineDeltaFromArchive`. -/
def answerDelta (network : Network) (accountId : String) (shard haveIndex : F) : Answer F :=
  if s.blobs.archiveEnabled = false ∨ accountId = "" then .blocks shard []
  else
    .blocks shard ((sortByIndex ((s.rowsOf network).filter fun r =>
      r.accountId = accountId && JsNumber.lt haveIndex (JsNumber.ofInt r.index))).map
        StoredBlock.block)

def answer (network : Network) (now : Int) : Query F → Answer F
  | .block hash => s.answerBlock network hash
  | .headProof pub send => s.answerHeadProof P network pub send
  | .token tokenId => s.answerToken P network tokenId
  | .pendingSends pub => s.answerPendingSends network pub
  | .resolve query => s.answerResolve T network query
  | .keyBlob ip username pub => .keyBlob (s.blobs.getKeyBlob T ⟨ip, network, username, pub⟩ now).2
  | .delta accountId shard haveIndex => s.answerDelta network accountId shard haveIndex

/-- What a request leaves behind: a fetch of a key blob is counted against its address. -/
def asked (network : Network) (query : Query F) (now : Int) : NetworkArchive F :=
  match query with
  | .keyBlob ip username pub =>
    { s with blobs := (s.blobs.getKeyBlob T ⟨ip, network, username, pub⟩ now).1 }
  | _ => s

end Answers

/-! ## Runs -/

/-- What reaches the relay: gossip, requests, the turns of the verify handlers, the timer. -/
inductive Input (F : Type) where
  | block (network : Network) (block : Option (Block F))
  | account (network : Network) (acc : Json F)
  | generation (network : Network) (m : Json F)
  | blob (req : KeyBlobPost F) (now : Int)
  | challenge (ip : String) (network : Network) (id : String) (left : Bool) (now : Int)
  | verify (req : VerifyRequest F) (now : Int)
  | resume (network : Network) (k : Nat) (uuid : String) (now : Int)
  | releaseStale (now : Int)
  | ask (network : Network) (query : Query F) (now : Int)

/-- Gossip and requests belong to one network, the timer to both. -/
def Input.concerns (n : Network) : Input F → Bool
  | .block network _ | .account network _ | .generation network _ | .challenge _ network _ _ _
  | .resume network _ _ _ | .ask network _ _ => decide (network = n)
  | .blob req _ => decide (req.network = n)
  | .verify req _ => decide (req.network = n)
  | .releaseStale _ => true

def step (P : Primitives F) (cfg : RelayConfig F) (T : JsText F) (s : NetworkArchive F) :
    Input F → NetworkArchive F
  | .block network block => s.archiveEngineBlock P block network
  | .account network acc => s.archiveAccount P T acc network
  | .generation network m => s.onGeneration P T network m
  | .blob req now => { s with blobs := (s.blobs.postKeyBlob T req now).1 }
  | .challenge ip network id left now =>
    { s with gate := (s.gate.challenge ip network id left now).1 }
  | .verify req now => s.verify req now
  | .resume network k uuid now => s.resume P cfg network k uuid now
  | .releaseStale now => { s with gate := s.gate.releaseStaleFaceUses now }
  | .ask network query now => s.asked T network query now

end NetworkArchive

end NeuronWeb
