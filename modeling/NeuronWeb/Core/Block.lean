import NeuronWeb.Core.Accumulator
import NeuronWeb.Core.Identity

set_option autoImplicit false

/-!
# The account-chain block (`engine/core/block.ts`)

Each account is its own append-only chain.  A block commits to its content through
`hash`, to the account's whole history through `accumulatorRoot`, and is signed by
`accountId` over the pair.  `canonicalContent` decides which fields a block of each
type commits to.
-/

namespace NeuronWeb

variable {F : Type}

/-- `GENESIS_PREV`: sixty-four zeros. -/
def GENESIS_PREV : Hex := "0000000000000000000000000000000000000000000000000000000000000000"

inductive BlockType where
  | «open»
  | send
  | receive
  | update
  | nftMint
  | nftSend
  | nftReceive
  | nftBurn
  | storageRegister
  | storageDeregister
  | storageSettle
  deriving DecidableEq, Repr, Inhabited

namespace BlockType

/-- The tag of the type on the wire. -/
def tag : BlockType → String
  | .open => "open"
  | .send => "send"
  | .receive => "receive"
  | .update => "update"
  | .nftMint => "nft-mint"
  | .nftSend => "nft-send"
  | .nftReceive => "nft-receive"
  | .nftBurn => "nft-burn"
  | .storageRegister => "storage-register"
  | .storageDeregister => "storage-deregister"
  | .storageSettle => "storage-settle"

end BlockType

/-! ## Storage payload -/

/-- The receipt shape as it appears on the wire. -/
structure ReadReceiptWire (F : Type) where
  reader : Hex
  provider : Hex
  counter : F
  bytesTotal : F
  readsTotal : F
  lastLatencyMs : F
  ts : F
  deriving DecidableEq

structure SignedReceipt (F : Type) where
  receipt : ReadReceiptWire F
  signature : Hex
  deriving DecidableEq

structure StoragePayload (F : Type) where
  capacityGB : Option F := none
  deviceId : Option String := none
  deviceClass : Option String := none
  declaredConcurrency : Option F := none
  receipts : Option (List (SignedReceipt F)) := none
  periodIndex : Option F := none
  publishRoot : Option String := none
  serviceRoot : Option String := none
  deriving DecidableEq

def ReadReceiptWire.toJson (r : ReadReceiptWire F) : Json F :=
  .obj [("reader", .str r.reader), ("provider", .str r.provider), ("counter", .num r.counter),
    ("bytesTotal", .num r.bytesTotal), ("readsTotal", .num r.readsTotal),
    ("lastLatencyMs", .num r.lastLatencyMs), ("ts", .num r.ts)]

def SignedReceipt.toJson (e : SignedReceipt F) : Json F :=
  .obj [("receipt", e.receipt.toJson), ("signature", .str e.signature)]

def StoragePayload.toJson (st : StoragePayload F) : Json F :=
  .obj <|
    Json.field? "capacityGB" (st.capacityGB.map .num) ++
    Json.field? "deviceId" (st.deviceId.map .str) ++
    Json.field? "deviceClass" (st.deviceClass.map .str) ++
    Json.field? "declaredConcurrency" (st.declaredConcurrency.map .num) ++
    Json.field? "receipts" (st.receipts.map fun rs => .arr (rs.map SignedReceipt.toJson)) ++
    Json.field? "periodIndex" (st.periodIndex.map .num) ++
    Json.field? "publishRoot" (st.publishRoot.map .str) ++
    Json.field? "serviceRoot" (st.serviceRoot.map .str)

/-! ## Blocks -/

/-- The signed content of a block (everything except the derived root, hash and signature). -/
structure BlockContent (F : Type) where
  accountId : Hex
  index : Int
  type : BlockType
  previousHash : Hex
  shard : Int
  timestamp : Int
  balance : Int
  identityCommitment : Option Hex := none
  attestations : Option (List TypedAttestation) := none
  recipient : Option Hex := none
  sourceHash : Option Hex := none
  amount : Option Int := none
  updates : Option (List (String × String)) := none
  tokenId : Option Hex := none
  contentRef : Option String := none
  nftMeta : Option (List (String × String)) := none
  recipientName : Option String := none
  senderPub : Option Hex := none
  senderName : Option String := none
  storage : Option (StoragePayload F) := none
  deriving DecidableEq

structure Block (F : Type) extends BlockContent F where
  /-- Merkle accumulator root over the account's history including this block. -/
  accumulatorRoot : Hex
  /-- Content hash; the next block's `previousHash`. -/
  hash : Hex
  /-- Signature by `accountId` over `(hash, accumulatorRoot)`. -/
  signature : Hex
  deriving DecidableEq

/-- `amount?.toString()`: bigints are hashed as decimal strings. -/
def amountField (amount : Option Int) : List (String × Json F) :=
  Json.field? "amount" (amount.map fun n => .str (toString n))

/-- The fields a block commits to beyond the header, by type. -/
def typedContent (c : BlockContent F) : List (String × Json F) :=
  match c.type with
  | .open =>
    Json.field? "identityCommitment" (c.identityCommitment.map .str) ++
    Json.field? "attestations"
      (c.attestations.map fun l => .arr (l.map TypedAttestation.toJson))
  | .send =>
    Json.field? "recipient" (c.recipient.map .str) ++
    amountField c.amount ++
    Json.field? "recipientName" (c.recipientName.map .str)
  | .receive =>
    Json.field? "sourceHash" (c.sourceHash.map .str) ++
    amountField c.amount ++
    Json.field? "senderPub" (c.senderPub.map .str) ++
    Json.field? "senderName" (c.senderName.map .str)
  | .update => Json.field? "updates" (c.updates.map Json.ofRecord)
  | .nftMint =>
    Json.field? "tokenId" (c.tokenId.map .str) ++
    Json.field? "contentRef" (c.contentRef.map .str) ++
    Json.field? "nftMeta" (c.nftMeta.map Json.ofRecord)
  | .nftSend =>
    Json.field? "tokenId" (c.tokenId.map .str) ++
    Json.field? "recipient" (c.recipient.map .str) ++
    Json.field? "recipientName" (c.recipientName.map .str)
  | .nftReceive =>
    Json.field? "tokenId" (c.tokenId.map .str) ++
    Json.field? "sourceHash" (c.sourceHash.map .str) ++
    Json.field? "senderPub" (c.senderPub.map .str) ++
    Json.field? "senderName" (c.senderName.map .str)
  | .nftBurn => Json.field? "tokenId" (c.tokenId.map .str)
  | .storageRegister => Json.field? "storage" (c.storage.map StoragePayload.toJson)
  | .storageDeregister => Json.field? "storage" (c.storage.map StoragePayload.toJson)
  | .storageSettle =>
    Json.field? "storage" (c.storage.map StoragePayload.toJson) ++ amountField c.amount

/-- The canonical content object that gets hashed. -/
def canonicalContent (c : BlockContent F) : Json F :=
  .obj <|
    [("accountId", .str c.accountId), ("index", .int c.index), ("type", .str c.type.tag),
      ("previousHash", .str c.previousHash), ("shard", .int c.shard),
      ("timestamp", .int c.timestamp), ("balance", .str (toString c.balance))] ++
    typedContent c

def computeContentHash (P : Primitives F) (c : BlockContent F) : Hex :=
  hashJson P (canonicalContent c)

/-- Canonical message signed by the account over a block. -/
def blockSigningMessage (hash accumulatorRoot : Hex) : String :=
  "block " ++ hash ++ " " ++ accumulatorRoot

/-- Signature-only check. -/
def verifyBlockSignature (P : Primitives F) (b : Block F) : Bool :=
  P.verify b.signature (blockSigningMessage b.hash b.accumulatorRoot) b.accountId

/-- The content hash is consistent and the signature is valid under `accountId`. -/
def verifyBlock (P : Primitives F) (b : Block F) : Bool :=
  if computeContentHash P b.toBlockContent ≠ b.hash then false else verifyBlockSignature P b

theorem verifyBlock_iff (P : Primitives F) (b : Block F) :
    verifyBlock P b = true ↔
      computeContentHash P b.toBlockContent = b.hash ∧ verifyBlockSignature P b = true := by
  unfold verifyBlock
  by_cases h : computeContentHash P b.toBlockContent = b.hash <;> simp [h]

/-- Finalise a block: append its content hash to the accumulator, capture the root,
sign.  The accumulator is mutated before the signature is made, so it comes back
extended even when a malformed key makes signing throw. -/
def createBlock (P : Primitives F) (content : BlockContent F) (signerPriv : Hex)
    (accumulator : AccountAccumulator) : AccountAccumulator × Option (Block F) :=
  let hash := computeContentHash P content
  match accumulator.append hash with
  | none => (accumulator, none)
  | some acc =>
    let accumulatorRoot := acc.rootHex P
    match P.sign (blockSigningMessage hash accumulatorRoot) signerPriv with
    | none => (acc, none)
    | some signature =>
      (acc, some { toBlockContent := content, accumulatorRoot, hash, signature })

/-! ## What a content hash pins down -/

theorem append_computeContentHash (P : Primitives F) (c : BlockContent F)
    (acc : AccountAccumulator) :
    acc.append (computeContentHash P c) = some (acc ++ [P.sha256
      (P.encodeJson (canonicalContent c).sortValue)]) := by
  simp [AccountAccumulator.append, computeContentHash, hashJson, hashHex]

/-- A created block carries its content unchanged, the hash of that content, the
root of the extended accumulator, and a signature by the given key. -/
theorem createBlock_eq_some {P : Primitives F} {content : BlockContent F} {priv : Hex}
    {acc acc' : AccountAccumulator} {b : Block F}
    (h : createBlock P content priv acc = (acc', some b)) :
    b.toBlockContent = content ∧ b.hash = computeContentHash P content ∧
      acc.append b.hash = some acc' ∧ b.accumulatorRoot = acc'.rootHex P ∧
      P.sign (blockSigningMessage b.hash b.accumulatorRoot) priv = some b.signature := by
  unfold createBlock at h
  simp only at h
  split at h
  · simp at h
  · rename_i acc₁ happend
    split at h
    · simp at h
    · rename_i sig hsig
      simp only [Prod.mk.injEq, Option.some.injEq] at h
      obtain ⟨rfl, rfl⟩ := h
      exact ⟨rfl, rfl, happend, rfl, hsig⟩

/-- Collision-free hashing: different inputs never share a digest, a digest is not empty,
and the canonical text of a block's content shows the account and the height. -/
structure CollisionFree (P : Primitives F) : Prop where
  sha256_injective : Function.Injective P.sha256
  sha256_ne_nil : ∀ b, P.sha256 b ≠ []
  encode_header : ∀ c c' : BlockContent F,
    P.encodeJson (canonicalContent c).sortValue = P.encodeJson (canonicalContent c').sortValue →
      c.accountId = c'.accountId ∧ c.index = c'.index

namespace CollisionFree

variable {P : Primitives F} (hP : CollisionFree P)

include hP

theorem hashHex_injective : Function.Injective (hashHex P) :=
  bytesToHex_injective.comp hP.sha256_injective

theorem hashHex_ne_empty (b : Bytes) : hashHex P b ≠ "" :=
  bytesToHex_ne_empty (hP.sha256_ne_nil b)

theorem computeContentHash_ne_empty (c : BlockContent F) : computeContentHash P c ≠ "" :=
  hP.hashHex_ne_empty _

theorem header_eq_of_hash_eq {c c' : BlockContent F}
    (h : computeContentHash P c = computeContentHash P c') :
    c.accountId = c'.accountId ∧ c.index = c'.index :=
  hP.encode_header c c' (hP.hashHex_injective h)

end CollisionFree

end NeuronWeb
