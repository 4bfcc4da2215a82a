/-
  Storage/Custody: what a storage manager takes from a receipt, and when it gives up the
  publisher's copy (`network/storage-manager.ts`).

  `handleReceipt` is the handler as a whole, for a receipt with any fields. It runs without an
  await, up to a call of `releasePublisherCopy` that it may start. That call looks at the
  claimed holders, asks the live ones for the bytes, and waits; the answers are a step of their
  own.
-/
import NeuronWeb.Content.FailureDomains
import NeuronWeb.Relay.Trajectory
import NeuronWeb.Storage.OwnerOnly

set_option autoImplicit false

namespace NeuronWeb

variable {F : Type}

/-- The point at which losing the uploader stops destroying the content. -/
def MIN_REPLICAS : Nat := 2

structure CustodyEnv (F : Type) extends StorageEnv F where
  /-- `HEARTBEAT_INTERVAL_MS` of the timing profile in force. -/
  heartbeatIntervalMs : Int
  /-- `MAX_OFFLINE_MS` of the timing profile in force. -/
  maxOfflineMs : Int

/-- A `StorageReceipt` as gossip brings it. -/
structure ReceiptMessage (F : Type) where
  providerPub : Hex
  requesterPub : Hex
  cid : Cid
  latencyMs : F
  success : Bool
  timestamp : F
  signature : Hex
  providerSmokeAddr : Option String
  /-- The rank among the providers of one round, from 1. -/
  responseRank : Option F
  totalProviders : Option F
  actualStoredBytes : Option F

/-- A call of `releasePublisherCopy` that waits for the holders. -/
structure PendingRelease where
  cid : Cid
  additionalCids : List Cid
  /-- The holders that are asked. -/
  asked : List Hex
  deriving DecidableEq

/-- The holders whose answer counts: any bytes at all. -/
def PendingRelease.proven (release : PendingRelease) (answer : Hex → Option Bytes) : List Hex :=
  release.asked.filter fun pub => (answer pub).any fun bytes => decide (bytes ≠ [])

structure CustodyManager (F : Type) extends StorageManager F where
  liveness : CustodyLiveness
  failureCorrelation : FailureCorrelation
  /-- The inferred domains, and when they were inferred. -/
  domainCache : Option (JsMap Hex String × Int)
  /-- The third-party receipts about a provider, of the current window. -/
  receipts : JsMap Hex (List (ReceiptMessage F))
  releasedCids : JsSet Cid
  /-- The calls of `releasePublisherCopy`; `none` has returned. -/
  releases : List (Option PendingRelease)

section Payload

variable [JsNumber F]

/-- `receipt.cid === receipt.providerPub`, on a receipt that reports stored bytes. -/
def ReceiptMessage.statsBytes (r : ReceiptMessage F) : Option F :=
  r.actualStoredBytes.filter fun _ => decide (r.cid = r.providerPub)

/-- The text that a receipt is signed over: stats-only receipts have one of their own. -/
def ReceiptMessage.payload (r : ReceiptMessage F) : String :=
  match r.statsBytes with
  | some bytes =>
    ":".intercalate ["stats", r.providerPub, JsNumber.toText bytes, JsNumber.toText r.timestamp]
  | none =>
    ":".intercalate ["receipt", r.cid, r.providerPub, r.requesterPub, JsNumber.toText r.latencyMs,
      toString r.success, JsNumber.toText r.timestamp]

/-- `receipt.latencyMs`, inflated for a later responder. -/
def ReceiptMessage.adjustedLatency (r : ReceiptMessage F) : F :=
  let one : F := JsNumber.ofInt 1
  let given (x : Option F) : Option F := x.filter fun x => !(Json.num x).falsy
  let rankMultiplier :=
    match given r.responseRank, given r.totalProviders with
    | some rank, some total =>
      if JsNumber.lt one total then JsNumber.add one (JsNumber.div (JsNumber.sub rank one) total)
      else one
    | _, _ => one
  JsNumber.mul r.latencyMs rankMultiplier

/-- `spotCheckPassRate` over a window of receipts. -/
def passRate (list : List (ReceiptMessage F)) : F :=
  JsNumber.div (JsNumber.ofInt (list.countP ReceiptMessage.success))
    (JsNumber.ofInt list.length)

/-- `avgLatencyMs` over a window of receipts, when one of them was successful. -/
def meanLatency (list : List (ReceiptMessage F)) : Option F :=
  let latencies := (list.filter ReceiptMessage.success).map ReceiptMessage.adjustedLatency
  if latencies.isEmpty then none
  else some (JsNumber.div (latencies.foldl JsNumber.add (JsNumber.ofInt 0))
    (JsNumber.ofInt latencies.length))

end Payload

namespace CustodyManager

variable [JsNumber F] (E : CustodyEnv F) (s : CustodyManager F)

/-! ## Holders that count -/

/-- One holder through the filter of `liveHolders`. -/
def keepHolder (now : Int) (kept : List Hex × CustodyLiveness) (pub : Hex) :
    List Hex × CustodyLiveness :=
  let (ok, T) := s.ledger.providerLedger.isLive E.maxOfflineMs kept.2 pub now
  (if ok then kept.1 ++ [pub] else kept.1, T)

/-- `liveHolders` of some holders, with the tracker that the questions leave behind. -/
def liveHolders (holders : List Hex) (now : Int) : List Hex × CustodyLiveness :=
  holders.foldl (s.keepHolder E now) ([], s.liveness)

/-- The machine that a provider declares. -/
def declared (pub : Hex) : Option String :=
  (s.provider? pub).bind fun p => if p.deviceId = "" then none else some ("dev:" ++ p.deviceId)

/-- `providerDomain(pub)`. -/
def providerDomain (pub : Hex) : String := (s.declared pub).getD ("pub:" ++ pub)

/-- The domain cache after `domainOf` has looked at it. -/
def domains (now : Int) : JsMap Hex String × Int :=
  let inferred := (inferDomains F s.ledger.providerLedger.providers.keys s.failureCorrelation
    s.declared, now)
  match s.domainCache with
  | some cache => if E.heartbeatIntervalMs < 4 * (now - cache.2) then inferred else cache
  | none => inferred

/-- `domainOf(…)(pub)`. -/
def domainOf (now : Int) (pub : Hex) : String :=
  ((s.domains E now).1.get? pub).getD (s.providerDomain pub)

/-- `liveHolderCount`: the failure domains of the live holders. -/
def liveHolderCount (confirmed : JsSet Hex) (now : Int) : Nat × CustodyManager F :=
  let (live, liveness) := s.liveHolders E confirmed.keys now
  ((live.map (s.domainOf E now)).eraseDups.length,
    { s with liveness, domainCache := some (s.domains E now) })

/-! ## Releasing the publisher's copy -/

/-- The holders that `proveCustody` asks. -/
def asked (confirmed : JsSet Hex) (now : Int) : List Hex :=
  (s.liveHolders E confirmed.keys now).1.filter fun pub =>
    (s.ledger.providerLedger.allProviders.find? fun p => p.pub = pub).any fun p =>
      truthy p.smokeAddr

/-- `releasePublisherCopy(cid)` up to the answers of the holders. -/
def releasePublisherCopy (cid : Cid) (now : Int) : CustodyManager F :=
  match s.trackedCids.get? cid with
  | none => s
  | some tracked =>
    if s.localKeys.has tracked.ownerPub = false then s
    else if s.releasedCids.has cid then s
    else
      let (live, s) := s.liveHolderCount E tracked.confirmedProviders now
      if live < MIN_REPLICAS then s
      else
        { s with
          releases := s.releases ++
            [some ⟨cid, tracked.additionalCids, s.asked E tracked.confirmedProviders now⟩] }

/-- The `n`-th call of `releasePublisherCopy` goes on when its holders have answered, each with
some bytes or not at all. -/
def finishRelease (n : Nat) (answer : Hex → Option Bytes) : CustodyManager F :=
  match s.releases[n]? with
  | some (some release) =>
    let s := { s with releases := s.releases.set n none }
    if (release.proven answer).length < MIN_REPLICAS then s
    else
      { s with
        releasedCids := JsSet.add s.releasedCids release.cid
        store :=
          if s.storeStarted then
            (release.cid :: release.additionalCids).foldl SmokeStore.deleteBlock s.store
          else s.store }
  | _ => s

/-! ## Receipts -/

/-- What `handleReceipt` does with a success for a CID that this node tracks.  `targetFor`, which
it asks afterwards, puts the questions of `liveHolderCount` again. -/
def confirmHolder (tracked : TrackedCid) (r : ReceiptMessage F) (now : Int) : CustodyManager F :=
  -- `isHandedOff`
  let (_, s) := s.liveHolderCount E tracked.confirmedProviders now
  let tracked := { tracked with
    confirmedProviders := JsSet.add tracked.confirmedProviders r.providerPub }
  let s := { s with
    trackedCids := s.trackedCids.set r.cid tracked
    failureCorrelation := s.failureCorrelation.record r.providerPub true now
    liveness := s.liveness.record r.providerPub true now }
  let (live, s) := s.liveHolderCount E tracked.confirmedProviders now
  if MIN_REPLICAS ≤ live then s.releasePublisherCopy E r.cid now else s

/-- The first part of `handleReceipt`: a success. -/
def noteSuccess (r : ReceiptMessage F) (now : Int) : CustodyManager F :=
  if r.success = false then s
  else
    let s := match s.trackedCids.get? r.cid with
      | some tracked => s.confirmHolder E tracked r now
      | none => s
    { s with store := s.store.addPeerFallback (r.providerSmokeAddr.getD "") }

/-- Telemetry on a held record. -/
def writeTelemetry (pub : Hex) (w : TelemetryWrite F) : CustodyManager F :=
  { s with ledger := { s.ledger with
      providerLedger := s.ledger.providerLedger.writeTelemetry pub w } }

/-- The second part: stored bytes, which the provider must have signed itself. -/
def noteStoredBytes (r : ReceiptMessage F) : CustodyManager F :=
  match r.actualStoredBytes with
  | none => s
  | some bytes =>
    if E.verifyMsg r.signature r.payload r.providerPub then
      s.writeTelemetry r.providerPub (.storedBytes bytes)
    else s

/-- The receipts of the window, with the one that has come. -/
def window (r : ReceiptMessage F) (now : Int) : List (ReceiptMessage F) :=
  (((s.receipts.get? r.providerPub).getD []).filter fun old =>
    JsNumber.lt (JsNumber.ofInt (now - E.epochMs)) old.timestamp) ++ [r]

/-- The last part: a third party's receipt counts toward the pass rate and the latency. -/
def scoreProvider (r : ReceiptMessage F) (now : Int) : CustodyManager F :=
  if r.requesterPub = r.providerPub then s
  else
    let list := s.window E r now
    let s := { s with receipts := s.receipts.set r.providerPub list }
    s.writeTelemetry r.providerPub (.spotCheck (passRate list) (meanLatency list))

/-- `handleReceipt(receipt)`. -/
def handleReceipt (r : ReceiptMessage F) (now : Int) : CustodyManager F :=
  ((s.noteSuccess E r now).noteStoredBytes E r).scoreProvider E r now

/-! ## Runs -/

/-- A receipt arrives, from anyone; the holders have answered a call of
`releasePublisherCopy`. -/
inductive Input (F : Type) where
  | receipt (r : ReceiptMessage F) (now : Int)
  | answers (n : Nat) (answer : Hex → Option Bytes) (now : Int)

def step : Input F → CustodyManager F
  | .receipt r now => s.handleReceipt E r now
  | .answers n answer _ => s.finishRelease n answer

end CustodyManager

/-! ## A publisher -/

namespace CustodyManager.Sample

open StorageManager.Sample (env hosting upload)

/-- Providers stay live for a hundred seconds. -/
def custodyEnv : CustodyEnv Rat := { env with heartbeatIntervalMs := 1000, maxOfflineMs := 100000 }

/-- A provider on a device of its own or of another provider. -/
def holder (pub : Hex) (deviceId : String) : StorageProviderState Rat where
  pub
  deviceId
  registeredAt := 0
  capacityGB := 10
  deviceClass := none
  declaredConcurrency := none
  lastActualStoredBytes := 0
  lastHeartbeat := 0
  heartbeatsLast24h := 0
  smokeAddr := some (pub ++ ".smoke")
  countryCode := none
  avgLatencyMs := 0
  spotCheckPassRate := 1
  score := 1

/-- The publisher of an upload that nobody else holds yet, with some registered providers. -/
def publisher (holders : List (StorageProviderState Rat)) : CustodyManager Rat :=
  { hosting with
    ledger := { hosting.ledger with
      providerLedger := { ProviderLedger.new with
        providers := holders.foldl (fun m p => m.set p.pub p) .empty } }
    liveness := .new
    failureCorrelation := ⟨.empty, .empty, 1000, 604⟩
    domainCache := none
    receipts := .empty
    releasedCids := .empty
    releases := [] }

/-- `pub` is said to hold the upload; nobody has signed that. -/
def claimFor (pub : Hex) : ReceiptMessage Rat where
  providerPub := pub
  requesterPub := pub
  cid := upload.2.root
  latencyMs := 0
  success := true
  timestamp := 5
  signature := ""
  providerSmokeAddr := none
  responseRank := none
  totalProviders := none
  actualStoredBytes := none

end CustodyManager.Sample

end NeuronWeb
