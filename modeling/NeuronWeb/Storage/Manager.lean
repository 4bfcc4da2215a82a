/-
  Storage/Manager: the storage manager of a node, its read receipts and its settlement
  (`network/storage-manager.ts`).

  The manager keeps the keys of the local accounts as the app stores them. The capacity and
  calibration records, the retry timers and the presence store decide nothing here and are left
  out.
-/
import NeuronWeb.Content.CustodyLiveness
import NeuronWeb.Content.SettlementSchedule
import NeuronWeb.Core.AppKeys
import NeuronWeb.Ledger.Create
import NeuronWeb.Storage.SmokeStore

set_option autoImplicit false

namespace NeuronWeb

variable {F : Type}

/-! ## The state -/

/-- The platform of a storage manager. -/
structure StorageEnv (F : Type) where
  primitives : Primitives F
  /-- The private part of `engineKeysFromAppPrivate`; `none` when it throws. -/
  engineKeysFromAppPrivate : String → Option Hex
  /-- `REWARD_EPOCH_MS` of the timing profile in force. -/
  epochMs : Int

structure FileIndexRecord (F : Type) where
  cid : Cid
  sizeBytes : Option F
  mimeType : Option String
  timestamp : F
  uploaderPub : Hex

structure TrackedCid where
  ownerPub : Hex
  confirmedProviders : JsSet Hex
  additionalCids : List Cid

structure StorageManager (F : Type) where
  started : Bool
  /-- `net.running`. -/
  running : Bool
  /-- `store.isStarted()`. -/
  storeStarted : Bool
  /-- `getDeviceId()`. -/
  deviceId : String
  /-- Account to its private key, as the app stores it. -/
  localKeys : JsMap Hex String
  ledger : EngineLedger F
  store : SmokeStore
  trackedCids : JsMap Cid TrackedCid
  /-- File records for the files this node owns. -/
  fileIndex : JsMap Cid (FileIndexRecord F)
  inboundReceipts : ReceiptLedger F
  /-- Receipts others have handed us, waiting to be settled, by reader. -/
  pendingEnvelopes : JsMap Hex (SignedReceipt F)

namespace StorageEnv

variable (E : StorageEnv F)

/-- `signMsg`: sign a payload with the engine key derived from an app key. -/
def signMsg (payload : String) (priv : String) : Option Hex :=
  (E.engineKeysFromAppPrivate priv).bind fun key => E.primitives.sign payload key

/-- `verifyMsg`: verify a payload against an account's engine id. -/
def verifyMsg (signature : Hex) (payload : String) (enginePub : Hex) : Bool :=
  signature != "" && enginePub != "" && E.primitives.verify signature payload enginePub

end StorageEnv

namespace StorageManager

/-- `storageProviders.get(pub)`. -/
def provider? (m : StorageManager F) (pub : Hex) : Option (StorageProviderState F) :=
  m.ledger.providerLedger.providers.get? pub

section Receipts

variable [JsNumber F] (E : StorageEnv F) (m : StorageManager F)

/-! ## Read receipts -/

/-- A reader handed us a receipt: verify it now, store it if it supersedes. -/
def acceptReadReceipt (env : SignedReceipt F) : StorageManager F :=
  let verified := E.verifyMsg env.signature (receiptPayload env.receipt) env.receipt.reader
  match m.inboundReceipts.record env.receipt verified with
  | .error _ => m
  | .ok inboundReceipts =>
    { m with
      inboundReceipts
      pendingEnvelopes := m.pendingEnvelopes.set env.receipt.reader env }

/-- The receipts to put in the next settlement block, newest per reader. -/
def settlementReceipts : List (SignedReceipt F) :=
  m.pendingEnvelopes.values.take MAX_RECEIPTS_PER_SETTLEMENT

/-! ## Settlement -/

/-- This node's own published files, for the publish record. -/
def ownFileRecords : List (Cid × F) :=
  (m.fileIndex.values.filter fun rec => m.localKeys.has rec.uploaderPub).map fun rec =>
    (rec.cid, rec.sizeBytes.getD (JsNumber.ofInt 0))

/-- What the pass does with one account, up to the call's answer. -/
inductive SettleVisit (F : Type) where
  | skipped
  | called (result : CreateResult F)

/-- The body of the loop of `settleIfDue`, up to the call that is awaited.  `now` is the
clock at the start of the pass, `stamp` the one of the block. -/
def settleAccount (now stamp : Int) (pub : Hex) (priv : String) :
    StorageManager F × SettleVisit F :=
  match m.provider? pub with
  | none => (m, .skipped)
  | some provider =>
    if JsNumber.same provider.capacityGB (JsNumber.ofInt 0) then (m, .skipped)
    else if m.settlementReceipts.isEmpty then (m, .skipped)
    else
      let due := settlementDue pub now (settlementPeriodMs E.epochMs)
        (provider.lastSettledPeriod.getD (JsNumber.ofInt (-1)))
        (m.inboundReceipts.earnings pub).payableBytes
      if !due.due then (m, .skipped)
      else
        let publishRoot := publishRecordRoot E.primitives m.ownFileRecords
        let serviceRoot := serviceRecordRoot E.primitives (m.ledger.providerLedger.settledFor pub)
        let (ledger, result) := m.ledger.createStorageSettle E.primitives pub priv
          m.settlementReceipts (JsNumber.ofInt due.periodIndex) (some publishRoot)
          (some serviceRoot) stamp
        ({ m with ledger }, .called result)

/-- What follows the awaited call: a settled pending set is spent. -/
def afterSettle (visit : SettleVisit F) : StorageManager F :=
  match visit with
  | .called (.created _) => { m with pendingEnvelopes := JsMap.empty }
  | _ => m

/-- The loop of `settleIfDue`; `false` when a call throws and the pass ends there. -/
def settleLoop (now : Int) (stamp : Hex → Int) :
    List (Hex × String) → StorageManager F → StorageManager F × Bool
  | [], m => (m, true)
  | (pub, priv) :: rest, m =>
    match m.settleAccount E now (stamp pub) pub priv with
    | (m, .called .thrown) => (m, false)
    | (m, visit) => settleLoop now stamp rest (m.afterSettle visit)

/-- One pass over the local accounts.  `stamp` is the clock when the block of an account is
made. -/
def settleIfDue (now : Int) (stamp : Hex → Int) : StorageManager F × Bool :=
  if !m.started then (m, true) else settleLoop E now stamp m.localKeys.entries m

end Receipts

end StorageManager

end NeuronWeb
