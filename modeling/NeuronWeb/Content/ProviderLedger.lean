/-
  Content/ProviderLedger: the storage-provider registry
  (`engine/content/provider-ledger.ts`).

  Three block types drive it, all on the provider's own chain: register, deregister and settle.
-/
import NeuronWeb.Content.ReadReceipts

set_option autoImplicit false

namespace NeuronWeb

variable {F : Type}

structure StorageProviderState (F : Type) where
  pub : Hex
  deviceId : String
  registeredAt : Int
  capacityGB : F
  deviceClass : Option String
  declaredConcurrency : Option F
  lastActualStoredBytes : F
  lastHeartbeat : Int
  heartbeatsLast24h : F
  smokeAddr : Option String
  countryCode : Option String
  avgLatencyMs : F
  spotCheckPassRate : F
  score : F
  /-- Highest settlement period applied for this provider. -/
  lastSettledPeriod : Option F := none
  /-- True when this record came from discovery rather than from a chain we hold. -/
  discovered : Option Bool := none

/-- Per-account facts that deregistering does not erase. -/
structure DurableRecord where
  firstRegisteredAt : Int
  lastHeartbeat : Int
  deriving DecidableEq, Repr, Inhabited

structure ProviderLedger (F : Type) where
  providers : JsMap Hex (StorageProviderState F)
  discovered : JsMap Hex (StorageProviderState F)
  durable : JsMap Hex DurableRecord
  /-- Cumulative bytes already settled, per provider and reader. -/
  settledBytes : JsMap Hex (JsMap Hex F)
  lastSettledPeriod : JsMap Hex F
  /-- Capacity changes over time, oldest first. -/
  capacityHistory : JsMap Hex (List (Int × F))

namespace ProviderLedger

/-- `new ProviderLedger()`. -/
def new : ProviderLedger F :=
  ⟨JsMap.empty, JsMap.empty, JsMap.empty, JsMap.empty, JsMap.empty, JsMap.empty⟩

/-- Replace what discovery knows. -/
def setDiscovered (L : ProviderLedger F) (records : List (StorageProviderState F)) :
    ProviderLedger F :=
  { L with discovered := records.foldl (fun m r => m.set r.pub r) JsMap.empty }

/-- Drop all state (ledger reset). -/
def clear (L : ProviderLedger F) : ProviderLedger F :=
  { L with
    providers := JsMap.empty
    discovered := JsMap.empty
    durable := JsMap.empty
    capacityHistory := JsMap.empty }

/-- Baselines for one provider. -/
def settledFor (L : ProviderLedger F) (pub : Hex) : JsMap Hex F :=
  (L.settledBytes.get? pub).getD JsMap.empty

variable [JsNumber F]

/-- What the receipts of a settle payload are worth to `accountId`. -/
def settlementCredit (P : Primitives F) (L : ProviderLedger F) (accountId : Hex)
    (storage : Option (StoragePayload F)) : SettlementCredit F :=
  creditFromSignedReceipts P accountId ((storage.bind StoragePayload.receipts).getD [])
    (L.settledFor accountId)

/-- `capacityGB > 0` of the provider's own record. -/
def isRegistered (L : ProviderLedger F) (pub : Hex) : Bool :=
  match L.providers.get? pub with
  | some p => !JsNumber.le p.capacityGB (JsNumber.ofInt 0)
  | none => false

/-- The `storage-settle` arm of `validate`. -/
def validateSettle (P : Primitives F) (L : ProviderLedger F) (block : BlockContent F) :
    Option String :=
  match block.storage with
  | none => some "storage-settle: missing storage payload"
  | some st =>
    match st.periodIndex with
    | none => some "storage-settle: missing periodIndex"
    | some periodIndex =>
      let last := (L.lastSettledPeriod.get? block.accountId).getD (JsNumber.ofInt (-1))
      let receipts := st.receipts.getD []
      let derived := settlementCredit P L block.accountId block.storage
      let claimed : F := JsNumber.ofInt (block.amount.getD 0)
      if JsNumber.le periodIndex last then
        some ("storage-settle: period " ++ JsNumber.toText periodIndex ++ " is not after " ++
          JsNumber.toText last)
      else if receipts.length > MAX_RECEIPTS_PER_SETTLEMENT then
        some ("storage-settle: " ++ toString receipts.length ++ " receipts exceeds " ++
          toString MAX_RECEIPTS_PER_SETTLEMENT)
      else if JsNumber.le derived.payableBytes (JsNumber.ofInt 0) then
        some ("storage-settle: " ++ derived.reason)
      else if !JsNumber.lt (JsNumber.ofInt 0) claimed then
        some "storage-settle: amount must be positive"
      else if JsNumber.lt derived.payableBytes claimed then
        some ("storage-settle: amount " ++ JsNumber.toText claimed ++ " exceeds " ++
          JsNumber.toText derived.payableBytes ++ " supported by receipts")
      else none

/-- Validate a storage block against provider state: the error, if any. -/
def validate (P : Primitives F) (L : ProviderLedger F) (block : BlockContent F) :
    Option String :=
  match block.type with
  | .storageRegister =>
    match block.storage.bind StoragePayload.capacityGB with
    | none => some "storage-register: capacityGB must be a positive number"
    | some cap =>
      if !JsNumber.isFinite cap || JsNumber.le cap (JsNumber.ofInt 0) then
        some "storage-register: capacityGB must be a positive number"
      else none
  | .storageDeregister =>
    if L.isRegistered block.accountId then none
    else some "storage-deregister: not a registered storage provider"
  | .storageSettle => validateSettle P L block
  | _ => none

/-! ## Application -/

/-- The literal `0.1`. -/
def oneTenth : F := JsNumber.div (JsNumber.ofInt 1) (JsNumber.ofInt 10)

/-- Composite score: latency factor times spot-check factor, each floored at `0.1`. -/
def updateScore (p : StorageProviderState F) : StorageProviderState F :=
  let latencyFactor : F :=
    if JsNumber.lt (JsNumber.ofInt 0) p.avgLatencyMs then
      JsNumber.max oneTenth
        (JsNumber.min (JsNumber.ofInt 1) (JsNumber.div (JsNumber.ofInt 1000) p.avgLatencyMs))
    else JsNumber.ofInt 1
  let spotFactor : F :=
    JsNumber.max oneTenth (JsNumber.min (JsNumber.ofInt 1) p.spotCheckPassRate)
  { p with score := JsNumber.mul latencyFactor spotFactor }

def pushCapacity (L : ProviderLedger F) (pub : Hex) (ts : Int) (capacityGB : F) :
    ProviderLedger F :=
  { L with capacityHistory :=
      L.capacityHistory.set pub ((L.capacityHistory.get? pub).getD [] ++ [(ts, capacityGB)]) }

def applyRegister (L : ProviderLedger F) (block : BlockContent F) : ProviderLedger F :=
  let pub := block.accountId
  let capacityGB := (block.storage.bind StoragePayload.capacityGB).getD (JsNumber.ofInt 0)
  let existing := L.providers.get? pub
  let d := (L.durable.get? pub).getD ⟨block.timestamp, 0⟩
  let p : StorageProviderState F :=
    { pub
      deviceId := ((block.storage.bind StoragePayload.deviceId).or
        (existing.map StorageProviderState.deviceId)).getD ""
      registeredAt := d.firstRegisteredAt
      capacityGB
      deviceClass := block.storage.bind StoragePayload.deviceClass
      declaredConcurrency := block.storage.bind StoragePayload.declaredConcurrency
      lastActualStoredBytes :=
        (existing.map StorageProviderState.lastActualStoredBytes).getD (JsNumber.ofInt 0)
      lastHeartbeat := d.lastHeartbeat
      heartbeatsLast24h :=
        (existing.map StorageProviderState.heartbeatsLast24h).getD (JsNumber.ofInt 0)
      smokeAddr := existing.bind StorageProviderState.smokeAddr
      countryCode := existing.bind StorageProviderState.countryCode
      avgLatencyMs := (existing.map StorageProviderState.avgLatencyMs).getD (JsNumber.ofInt 0)
      spotCheckPassRate :=
        (existing.map StorageProviderState.spotCheckPassRate).getD (JsNumber.ofInt 1)
      score := (existing.map StorageProviderState.score).getD (JsNumber.ofInt 1) }
  let L := { L with
    durable := L.durable.set pub d
    providers := L.providers.set pub (updateScore p) }
  L.pushCapacity pub block.timestamp capacityGB

def applyDeregister (L : ProviderLedger F) (block : BlockContent F) : ProviderLedger F :=
  let L := L.pushCapacity block.accountId block.timestamp (JsNumber.ofInt 0)
  { L with providers := L.providers.delete block.accountId }

/-- The loop of `applySettle`: raise each verified reader's baseline. -/
def raiseBaselines (P : Primitives F) (accountId : Hex) (baselines : JsMap Hex F)
    (receipts : List (SignedReceipt F)) : JsMap Hex F :=
  receipts.foldl (fun baselines env =>
    let r := env.receipt
    if r.provider ≠ accountId ∨ r.reader = r.provider ∨
        P.verify env.signature (receiptPayload r) r.reader = false then baselines
    else
      let prev := (baselines.get? r.reader).getD (JsNumber.ofInt 0)
      if JsNumber.lt prev r.bytesTotal then baselines.set r.reader r.bytesTotal
      else baselines) baselines

/-- Move the baselines so the same bytes are not settled twice. -/
def applySettle (P : Primitives F) (L : ProviderLedger F) (block : BlockContent F) :
    ProviderLedger F :=
  match block.storage, block.storage.bind StoragePayload.periodIndex with
  | some st, some periodIndex =>
    let pub := block.accountId
    let baselines := raiseBaselines P pub (L.settledFor pub) (st.receipts.getD [])
    { L with
      settledBytes := L.settledBytes.set pub baselines
      lastSettledPeriod := L.lastSettledPeriod.set pub periodIndex
      providers :=
        match L.providers.get? pub with
        | some p => L.providers.set pub { p with lastSettledPeriod := some periodIndex }
        | none => L.providers }
  | _, _ => L

/-- Fold a validated storage block into provider state. -/
def apply (P : Primitives F) (L : ProviderLedger F) (block : BlockContent F) :
    ProviderLedger F :=
  match block.type with
  | .storageRegister => L.applyRegister block
  | .storageDeregister => L.applyDeregister block
  | .storageSettle => applySettle P L block
  | _ => L

end ProviderLedger

end NeuronWeb
