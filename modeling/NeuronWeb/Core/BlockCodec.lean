/-
  Core/BlockCodec: blocks as bytes (`encodeBlock`, `decodeBlock` of `engine/core/block.ts`).

  A block is written as canonical JSON, its two bigints as decimal numerals, and read back by
  `JSON.parse` and `BigInt`. The reader is a parameter: what it reads is a block whose bigints
  are still text.
-/
import NeuronWeb.Core.SignedContent
import Std.Data.String.ToInt

set_option autoImplicit false

namespace NeuronWeb

variable {F : Type}

/-! ## Writing -/

/-- A block as `JSON.stringify` sees it. -/
def Block.toJson (b : Block F) : Json F :=
  .obj <|
    [("accountId", .str b.accountId), ("index", .int b.index), ("type", .str b.type.tag),
      ("previousHash", .str b.previousHash), ("shard", .int b.shard),
      ("timestamp", .int b.timestamp), ("balance", .str (toString b.balance))] ++
    Json.field? "identityCommitment" (b.identityCommitment.map .str) ++
    Json.field? "attestations" (b.attestations.map fun l => .arr (l.map TypedAttestation.toJson)) ++
    Json.field? "recipient" (b.recipient.map .str) ++
    Json.field? "sourceHash" (b.sourceHash.map .str) ++
    amountField b.amount ++
    Json.field? "updates" (b.updates.map Json.ofRecord) ++
    Json.field? "tokenId" (b.tokenId.map .str) ++
    Json.field? "contentRef" (b.contentRef.map .str) ++
    Json.field? "nftMeta" (b.nftMeta.map Json.ofRecord) ++
    Json.field? "recipientName" (b.recipientName.map .str) ++
    Json.field? "senderPub" (b.senderPub.map .str) ++
    Json.field? "senderName" (b.senderName.map .str) ++
    Json.field? "storage" (b.storage.map StoragePayload.toJson) ++
    [("accumulatorRoot", .str b.accumulatorRoot), ("hash", .str b.hash),
      ("signature", .str b.signature)]

def encodeBlock (P : Primitives F) (b : Block F) : Bytes := P.encodeJson b.toJson.sortValue

/-! ## Reading -/

/-- What `JSON.parse` gives for a block: its fields, the two bigints still numerals. -/
structure ParsedBlock (F : Type) where
  /-- Every field but `balance` and `amount`. -/
  fields : Block F
  balance : String
  amount : Option String

/-- The parsed form of a block. -/
def ParsedBlock.of (b : Block F) : ParsedBlock F where
  fields := { b with balance := 0, amount := none }
  balance := toString b.balance
  amount := b.amount.map toString

/-- `JSON.parse(new TextDecoder().decode(bytes))`, read as a block. -/
structure BlockReader (F : Type) where
  /-- `none` where it throws. -/
  parse : Bytes → Option (ParsedBlock F)
  /-- The numbers that JSON carries unchanged: the finite ones, negative zero excepted. -/
  carries : F → Prop

/-- Revive the bigints; `none` where the JSON or a numeral is malformed and it throws. -/
def decodeBlock (R : BlockReader F) (bytes : Bytes) : Option (Block F) :=
  match R.parse bytes with
  | none => none
  | some raw =>
    match raw.balance.toInt? with
    | none => none
    | some balance =>
      match raw.amount with
      | none => some { raw.fields with balance, amount := none }
      | some text =>
        match text.toInt? with
        | none => none
        | some amount => some { raw.fields with balance, amount := some amount }

/-! ## The round trip -/

def ReadReceiptWire.numbers (r : ReadReceiptWire F) : List F :=
  [r.counter, r.bytesTotal, r.readsTotal, r.lastLatencyMs, r.ts]

def StoragePayload.numbers (st : StoragePayload F) : List F :=
  st.capacityGB.toList ++ st.declaredConcurrency.toList ++ st.periodIndex.toList ++
    (st.receipts.getD []).flatMap fun e => e.receipt.numbers

/-- The numbers in a block that are not whole by their role. -/
def Block.numbers (b : Block F) : List F := b.storage.elim [] StoragePayload.numbers

/-- The blocks are equal up to the order of the properties of their records. -/
structure SameBlock (b b' : Block F) : Prop where
  rest : { b with updates := none, nftMeta := none } = { b' with updates := none, nftMeta := none }
  updates : (b.updates.map (Json.ofRecord (F := F))).map Json.sortValue =
    (b'.updates.map Json.ofRecord).map Json.sortValue
  nftMeta : (b.nftMeta.map (Json.ofRecord (F := F))).map Json.sortValue =
    (b'.nftMeta.map Json.ofRecord).map Json.sortValue

namespace SameBlock

theorem refl (b : Block F) : SameBlock b b := ⟨rfl, rfl, rfl⟩

variable {b b' : Block F}

theorem field {α : Type} (h : SameBlock b b') (f : Block F → α)
    (hf : ∀ b : Block F, f { b with updates := none, nftMeta := none } = f b) : f b = f b' := by
  rw [← hf b, h.rest, hf b']

theorem hash (h : SameBlock b b') : b.hash = b'.hash := h.field (·.hash) fun _ => rfl

theorem index (h : SameBlock b b') : b.index = b'.index := h.field (·.index) fun _ => rfl

end SameBlock

theorem Json.sortFields_record (key : String) {m m' : Option (List (String × String))}
    (h : (m.map (Json.ofRecord (F := F))).map Json.sortValue =
      (m'.map Json.ofRecord).map Json.sortValue) :
    Json.sortFields (Json.field? key (m.map (Json.ofRecord (F := F)))) =
      Json.sortFields (Json.field? key (m'.map Json.ofRecord)) := by
  cases m with
  | none =>
    cases m' with
    | none => rfl
    | some r' => cases h
  | some r =>
    cases m' with
    | none => cases h
    | some r' =>
      have hrecord : (Json.ofRecord r : Json F).sortValue = (Json.ofRecord r').sortValue :=
        Option.some.inj h
      simp only [Option.map_some, Json.field?, Json.sortFields, hrecord]

theorem Json.sortFields_append_congr {l r r' : List (String × Json F)}
    (h : Json.sortFields r = Json.sortFields r') :
    Json.sortFields (l ++ r) = Json.sortFields (l ++ r') := by
  induction l with
  | nil => exact h
  | cons e l ih =>
    obtain ⟨key, v⟩ := e
    simp only [List.cons_append, Json.sortFields, ih]

namespace SameBlock

variable {b b' : Block F}

theorem typedContent (h : SameBlock b b') :
    Json.sortFields (typedContent b.toBlockContent) =
      Json.sortFields (NeuronWeb.typedContent b'.toBlockContent) := by
  obtain ⟨hrest, hupdates, hmeta⟩ := h
  obtain ⟨c, root, hash, signature⟩ := b
  obtain ⟨c', root', hash', signature'⟩ := b'
  obtain ⟨accountId, index, type⟩ := c
  obtain ⟨accountId', index', type'⟩ := c'
  simp only [Block.mk.injEq, BlockContent.mk.injEq] at hrest hupdates hmeta
  obtain ⟨⟨rfl, rfl, rfl, rfl, rfl, rfl, rfl, rfl, rfl, rfl, rfl, rfl, -, rfl, rfl, -, rfl, rfl,
    rfl, rfl⟩, rfl, rfl, rfl⟩ := hrest
  cases type with
  | update => exact Json.sortFields_record "updates" hupdates
  | nftMint =>
    exact Json.sortFields_append_congr (Json.sortFields_record "nftMeta" hmeta)
  | «open» | send | receive | nftSend | nftReceive | nftBurn | storageRegister
  | storageDeregister | storageSettle => rfl

theorem content (h : SameBlock b b') :
    (canonicalContent b.toBlockContent).sortValue =
      (canonicalContent b'.toBlockContent).sortValue := by
  have haccount := h.field (·.accountId) fun _ => rfl
  have htype := h.field (·.type) fun _ => rfl
  have hprevious := h.field (·.previousHash) fun _ => rfl
  have hshard := h.field (·.shard) fun _ => rfl
  have htimestamp := h.field (·.timestamp) fun _ => rfl
  have hbalance := h.field (·.balance) fun _ => rfl
  unfold canonicalContent
  rw [haccount, h.index, htype, hprevious, hshard, htimestamp, hbalance]
  simp only [Json.sortValue, Json.obj.injEq]
  exact Json.sortFields_append_congr h.typedContent

theorem verifyBlock (P : Primitives F) (h : SameBlock b b') :
    verifyBlock P b = NeuronWeb.verifyBlock P b' := by
  have haccount := h.field (·.accountId) fun _ => rfl
  have hroot := h.field (·.accumulatorRoot) fun _ => rfl
  have hsignature := h.field (·.signature) fun _ => rfl
  have hcontent : computeContentHash P b.toBlockContent =
      computeContentHash P b'.toBlockContent := by
    rw [computeContentHash, computeContentHash, hashJson, hashJson, h.content]
  have hverify : verifyBlockSignature P b = verifyBlockSignature P b' := by
    rw [verifyBlockSignature, verifyBlockSignature, h.hash, haccount, hroot, hsignature]
  rw [Bool.eq_iff_iff, verifyBlock_iff, verifyBlock_iff, hcontent, hverify, h.hash]

end SameBlock

/-- `JSON.parse` undoes `JSON.stringify` on blocks whose numbers JSON carries; the order of
the properties is not kept. -/
structure BlockReader.Reads (R : BlockReader F) (P : Primitives F) : Prop where
  parse_encodeBlock : ∀ b : Block F, (∀ x ∈ b.numbers, R.carries x) →
    ∃ b', SameBlock b b' ∧ R.parse (encodeBlock P b) = some (ParsedBlock.of b')

theorem decodeBlock_of_parse {R : BlockReader F} {bytes : Bytes} {b : Block F}
    (h : R.parse bytes = some (ParsedBlock.of b)) : decodeBlock R bytes = some b := by
  have hnumeral : ∀ n : Int, (toString n).toInt? = some n := fun n => Int.toInt?_repr n
  unfold decodeBlock
  rw [h]
  obtain ⟨c, root, hash, signature⟩ := b
  obtain ⟨accountId, index, type, previousHash, shard, timestamp, balance, commitment,
    attestations, recipient, sourceHash, amount⟩ := c
  cases amount with
  | none => simp only [ParsedBlock.of, hnumeral, Option.map_none]
  | some amount => simp only [ParsedBlock.of, hnumeral, Option.map_some]

theorem decodeBlock_encodeBlock {R : BlockReader F} {P : Primitives F} (hR : R.Reads P)
    {b : Block F} (h : ∀ x ∈ b.numbers, R.carries x) :
    ∃ b', SameBlock b b' ∧ decodeBlock R (encodeBlock P b) = some b' := by
  obtain ⟨b', hsame, hparse⟩ := hR.parse_encodeBlock b h
  exact ⟨b', hsame, decodeBlock_of_parse hparse⟩

end NeuronWeb
