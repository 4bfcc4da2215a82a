/-
  Content/ReadReceipts: re-deriving a payout from reader-signed receipts
  (`engine/content/read-receipts.ts`).

  Byte counters come off the wire as doubles and stay in the abstract number type.

  The ledger's `settle` and `sweep` are called by nothing and are left out: the baselines that
  count are those of the chain.
-/
import NeuronWeb.Core.Block

set_option autoImplicit false

namespace NeuronWeb

section Receipts

variable {F : Type} [JsNumber F]

/-- Bytes one reader may attest for one provider per epoch. -/
def PER_READER_EPOCH_CAP_BYTES : Int := 128 * 1024 * 1024

/-- Distinct readers a provider needs before any of it is payable. -/
def MIN_DISTINCT_READERS : Nat := 3

/-- Receipts one settlement block may carry. -/
def MAX_RECEIPTS_PER_SETTLEMENT : Nat := 256

/-- The exact text a reader signs. -/
def receiptPayload (r : ReadReceiptWire F) : String :=
  "|".intercalate ["receipt-v1", r.reader, r.provider, JsNumber.toText r.counter,
    JsNumber.toText r.bytesTotal, JsNumber.toText r.readsTotal,
    JsNumber.toText r.lastLatencyMs, JsNumber.toText r.ts]

structure SettlementCredit (F : Type) where
  payableBytes : F
  distinctReaders : Nat
  reason : String

/-- The loop of `creditFromSignedReceipts`: the bytes credited per reader so far, and
the readers seen.  No caller passes `rootOf`, so a reader is its own human. -/
def creditReceipts (P : Primitives F) (provider : Hex) (settledBytes : JsMap Hex F) :
    List (SignedReceipt F) → JsMap Hex F → List Hex → JsMap Hex F
  | [], byHuman, _ => byHuman
  | env :: rest, byHuman, seenPairs =>
    let r := env.receipt
    if r.provider ≠ provider ∨ r.reader = r.provider ∨
        P.verify env.signature (receiptPayload r) r.reader = false ∨
        seenPairs.contains r.reader then
      creditReceipts P provider settledBytes rest byHuman seenPairs
    else
      let baseline := (settledBytes.get? r.reader).getD (JsNumber.ofInt 0)
      let delta := JsNumber.max (JsNumber.ofInt 0) (JsNumber.sub r.bytesTotal baseline)
      if JsNumber.same delta (JsNumber.ofInt 0) then
        creditReceipts P provider settledBytes rest byHuman (r.reader :: seenPairs)
      else
        let total := JsNumber.add ((byHuman.get? r.reader).getD (JsNumber.ofInt 0)) delta
        creditReceipts P provider settledBytes rest (byHuman.set r.reader total)
          (r.reader :: seenPairs)

/-- Re-derive what a set of signed receipts supports, from the receipts alone. -/
def creditFromSignedReceipts (P : Primitives F) (provider : Hex)
    (receipts : List (SignedReceipt F)) (settledBytes : JsMap Hex F) : SettlementCredit F :=
  let byHuman := creditReceipts P provider settledBytes receipts JsMap.empty []
  let payable := byHuman.values.foldl (fun payable total =>
    JsNumber.add payable (JsNumber.min total (JsNumber.ofInt PER_READER_EPOCH_CAP_BYTES)))
    (JsNumber.ofInt 0)
  let distinct := byHuman.keys.length
  if distinct < MIN_DISTINCT_READERS then
    ⟨JsNumber.ofInt 0, distinct, "only " ++ toString distinct ++ " distinct reader(s); needs " ++
      toString MIN_DISTINCT_READERS⟩
  else ⟨payable, distinct, "ok"⟩

end Receipts

/-! ## The newest receipt of each reader for each provider -/

variable {F : Type}

structure PairState (F : Type) where
  counter : F
  bytesTotal : F
  readsTotal : F
  /-- `bytesTotal` as of the last settlement. -/
  settledBytes : F
  lastSeen : F

structure ReceiptLedger (F : Type) where
  pairs : JsMap String (PairState F)

structure ProviderEarnings (F : Type) where
  provider : Hex
  /-- Bytes attested since the last settlement, after caps. -/
  payableBytes : F
  /-- Bytes attested before caps. -/
  attestedBytes : F
  distinctReaders : Nat
  payable : Bool
  reason : String

namespace ReceiptLedger

def new : ReceiptLedger F := ⟨JsMap.empty⟩

def key (reader provider : Hex) : String := reader ++ "\x00" ++ provider

/-- The pair is one of this provider. -/
def isOf (provider : Hex) (k : String) : Bool := ("\x00" ++ provider).toList.isSuffixOf k.toList

variable [JsNumber F]

/-- Accept a receipt if it supersedes what is held, or say why not. -/
def record (L : ReceiptLedger F) (r : ReadReceiptWire F) (verified : Bool) :
    Except String (ReceiptLedger F) :=
  if r.reader = r.provider then
    .error "self-attested: reader and provider are the same account"
  else if !JsNumber.lt (JsNumber.ofInt 0) r.counter then .error "counter must be positive"
  else if !JsNumber.le (JsNumber.ofInt 0) r.bytesTotal || !JsNumber.isFinite r.bytesTotal then
    .error "bytesTotal must be a finite, non-negative number"
  else if !verified then .error "signature does not verify for the reader"
  else
    let k := key r.reader r.provider
    let pair (settledBytes : F) : PairState F :=
      ⟨r.counter, r.bytesTotal, r.readsTotal, settledBytes, r.ts⟩
    match L.pairs.get? k with
    | none => .ok ⟨L.pairs.set k (pair (JsNumber.ofInt 0))⟩
    | some prev =>
      if JsNumber.le r.counter prev.counter then
        .error ("stale receipt: counter " ++ JsNumber.toText r.counter ++ " <= " ++
          JsNumber.toText prev.counter)
      else if JsNumber.lt r.bytesTotal prev.bytesTotal then .error "bytesTotal went backwards"
      else if JsNumber.lt r.readsTotal prev.readsTotal then .error "readsTotal went backwards"
      else .ok ⟨L.pairs.set k (pair prev.settledBytes)⟩

/-- What each reader attests for the provider beyond what is settled, as far as it is
anything. -/
def deltas (L : ReceiptLedger F) (provider : Hex) : List F :=
  ((L.pairs.entries.filter fun e => isOf provider e.1).map fun e =>
    JsNumber.max (JsNumber.ofInt 0) (JsNumber.sub e.2.bytesTotal e.2.settledBytes)).filter
      fun delta => !JsNumber.same delta (JsNumber.ofInt 0)

/-- What a provider has earned since its last settlement. -/
def earnings (L : ReceiptLedger F) (provider : Hex) : ProviderEarnings F :=
  let deltas := L.deltas provider
  let attested := deltas.foldl JsNumber.add (JsNumber.ofInt 0)
  let payableBytes := deltas.foldl (fun sum delta =>
    JsNumber.add sum (JsNumber.min delta (JsNumber.ofInt PER_READER_EPOCH_CAP_BYTES)))
    (JsNumber.ofInt 0)
  let readers := deltas.length
  let payable := decide (MIN_DISTINCT_READERS ≤ readers) &&
    JsNumber.lt (JsNumber.ofInt 0) payableBytes
  { provider
    payableBytes := if payable then payableBytes else JsNumber.ofInt 0
    attestedBytes := attested
    distinctReaders := readers
    payable
    reason :=
      if readers = 0 then "no unsettled receipts"
      else if readers < MIN_DISTINCT_READERS then
        "only " ++ toString readers ++ " distinct reader(s); needs " ++
          toString MIN_DISTINCT_READERS ++ " — a testimonial, not an observation"
      else "payable on " ++ JsNumber.toText payableBytes ++ " byte(s) attested by " ++
        toString readers ++ " reader(s)" }

end ReceiptLedger

end NeuronWeb
