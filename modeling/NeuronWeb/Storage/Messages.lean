/-
  Storage/Messages: what a storage manager does with the messages of others, and what it
  publishes (`network/storage-manager.ts`).

  A handler runs to its end in one step here; what the peers deliver to it is an argument.
  Of the receipts that a node publishes the signed fields are kept, and of `handleReceipt`
  that a provider counts as confirmed.
-/
import NeuronWeb.Storage.Manager

set_option autoImplicit false

namespace NeuronWeb

variable {F : Type}

/-- Full set of live holders. -/
def REDUNDANCY_TARGET : Int := 10

/-- The most holders that a request can ask for. -/
def MAX_REPLICA_TARGET : Int := 30

/-! ## Messages -/

structure StorageReceipt where
  providerPub : Hex
  requesterPub : Hex
  cid : Cid
  latencyMs : Int
  success : Bool
  timestamp : Int
  signature : Hex
  deriving DecidableEq

structure CacheRequest (F : Type) where
  cid : Cid
  additionalCids : List Cid
  confirmedProviderCount : Option F
  redundancyTarget : Option F
  targetProviders : List Hex
  uploaderPub : Hex
  timestamp : Int
  signature : Hex

structure DeleteRequest where
  cids : List Cid
  ownerPub : Hex
  timestamp : Int
  signature : Hex

structure ReplaceRequest where
  oldCid : Cid
  oldAdditionalCids : List Cid
  newCid : Cid
  newAdditionalCids : List Cid
  ownerPub : Hex
  timestamp : Int
  signature : Hex

def CacheRequest.payload (req : CacheRequest F) : String :=
  ":".intercalate ["cache", req.cid, req.uploaderPub, toString req.timestamp]

def DeleteRequest.payload (req : DeleteRequest) : String :=
  ":".intercalate ["delete", ",".intercalate req.cids, req.ownerPub, toString req.timestamp]

def ReplaceRequest.payload (req : ReplaceRequest) : String :=
  ":".intercalate ["replace", req.oldCid, req.newCid, req.ownerPub, toString req.timestamp]

/-- The receipt that `requesterPub` signs; `none` when signing throws. -/
def StorageEnv.receiptOf (E : StorageEnv F) (priv : String) (providerPub requesterPub : Hex)
    (cid : Cid) (latencyMs : Int) (success : Bool) (timestamp : Int) : Option StorageReceipt :=
  let payload := ":".intercalate ["receipt", cid, providerPub, requesterPub, toString latencyMs,
    toString success, toString timestamp]
  (E.signMsg payload priv).map fun signature =>
    { providerPub, requesterPub, cid, latencyMs, success, timestamp, signature }

/-! ## Fetching for others -/

/-- `cache` of one CID, with the bytes that the peers come up with; `none` when it throws. -/
def SmokeStore.cacheBlock (s : SmokeStore) (cid : Cid) (uploaderPub : Hex)
    (fetched : Option Bytes) : Option SmokeStore :=
  if (s.getBlock cid).isSome then some (s.markCached cid (some uploaderPub))
  else fetched.map fun data => (s.route cid data).markCached cid (some uploaderPub)

/-- The loop of `handleCacheRequest`: each CID on its own, and the ones that failed. -/
def SmokeStore.cacheEach (uploaderPub : Hex) (fetched : Cid → Option Bytes) :
    List Cid → SmokeStore → SmokeStore × List Cid
  | [], s => (s, [])
  | cid :: rest, s =>
    if s.cached.has cid then cacheEach uploaderPub fetched rest s
    else
      match s.cacheBlock cid uploaderPub (fetched cid) with
      | some s => cacheEach uploaderPub fetched rest s
      | none =>
        let (s, failed) := cacheEach uploaderPub fetched rest s
        (s, cid :: failed)

/-- The loop of `handleReplaceRequest`, which the first failure ends; `false` then. -/
def SmokeStore.cacheUntil (uploaderPub : Hex) (fetched : Cid → Option Bytes) :
    List Cid → SmokeStore → SmokeStore × Bool
  | [], s => (s, true)
  | cid :: rest, s =>
    match s.cacheBlock cid uploaderPub (fetched cid) with
    | some s => cacheUntil uploaderPub fetched rest s
    | none => (s, false)

/-- What a probe of `runSpotChecks` comes to. -/
inductive Probe where
  /-- The provider served bytes that hash to the CID. -/
  | served (latencyMs : Int)
  /-- It served something else. -/
  | tampered
  /-- It served nothing; `evicted` when its streak of failures costs it the assignment. -/
  | failed (evicted : Bool)
  deriving DecidableEq

namespace StorageManager

variable (E : StorageEnv F) (m : StorageManager F)

/-- May this device write storage blocks for this account? -/
def servesFromThisDevice (pub : Hex) : Bool :=
  (m.provider? pub).any fun p => m.deviceId != "" && p.deviceId != "" && p.deviceId == m.deviceId

/-- The receipt for a block that this node holds, if it is connected and has the key. -/
def custodyReceipt (pub : Hex) (cid : Cid) (latencyMs timestamp : Int) : List StorageReceipt :=
  match m.localKeys.get? pub with
  | some priv =>
    if m.running then (E.receiptOf priv pub pub cid latencyMs true timestamp).toList else []
  | none => []

/-! ## Custody -/

/-- The handler of pushed blocks. -/
def blockPushHandler (cid : Cid) (uploaderPub : Option Hex) (timestamp : Int) :
    StorageManager F × List StorageReceipt :=
  match m.localKeys.keys.find? m.servesFromThisDevice with
  | none => (m, [])
  | some pub =>
    if !m.running then (m, [])
    else
      ({ m with store := m.store.markCached cid uploaderPub },
        m.custodyReceipt E pub cid 0 timestamp)

section Requests

variable [JsNumber F]

/-- How many live holders the request asks for. -/
def askedTarget (req : CacheRequest F) : F :=
  match req.redundancyTarget with
  | some target =>
    if JsNumber.isFinite target then
      JsNumber.min (JsNumber.max (JsNumber.ofInt 1) (JsNumber.floor target))
        (JsNumber.ofInt MAX_REPLICA_TARGET)
    else JsNumber.ofInt REDUNDANCY_TARGET
  | none => JsNumber.ofInt REDUNDANCY_TARGET

/-- The guards of `handleCacheRequest`: the provider that is to cache, if any. -/
def cachingProvider (req : CacheRequest F) : Option Hex :=
  if req.confirmedProviderCount.any (JsNumber.le (askedTarget req)) then none
  else
    match m.localKeys.keys.find? req.targetProviders.contains with
    | none => none
    | some pub =>
      match m.provider? pub with
      | none => none
      | some provider =>
        if JsNumber.same provider.capacityGB (JsNumber.ofInt 0) then none
        else if !m.servesFromThisDevice pub then none
        else if !E.verifyMsg req.signature req.payload req.uploaderPub then none
        else if !m.storeStarted then none
        else some pub

def handleCacheRequest (req : CacheRequest F) (fetched : Cid → Option Bytes)
    (latencyMs timestamp : Int) : StorageManager F × List StorageReceipt :=
  match m.cachingProvider E req with
  | none => (m, [])
  | some pub =>
    match m.store.cacheEach req.uploaderPub fetched (req.cid :: req.additionalCids) with
    | (store, []) =>
      let m := { m with store := store.saveCacheGroup req.cid req.additionalCids }
      (m, m.custodyReceipt E pub req.cid latencyMs timestamp)
    | (store, _ :: _) => ({ m with store }, [])

/-! ## Deleting and replacing -/

/-- Stop tracking a CID that is gone. -/
def forget (cid : Cid) : StorageManager F :=
  { m with trackedCids := m.trackedCids.delete cid, fileIndex := m.fileIndex.delete cid }

/-- One CID of a delete request: refused when it is known to be somebody else's. -/
def deleteFor (ownerPub : Hex) (s : SmokeStore) (cid : Cid) : SmokeStore :=
  match s.cachedMeta.get? cid with
  | some uploaderPub =>
    if uploaderPub != "" && uploaderPub != ownerPub then s else s.deleteBlock cid
  | none => s.deleteBlock cid

def handleDeleteRequest (req : DeleteRequest) : StorageManager F :=
  if req.ownerPub = "" ∨ req.signature = "" then m
  else if !E.verifyMsg req.signature req.payload req.ownerPub then m
  else if !m.storeStarted then m
  else
    let m := { m with store := req.cids.foldl (deleteFor req.ownerPub) m.store }
    match req.cids with
    | [] => m
    | primaryCid :: _ => m.forget primaryCid

/-- The local account that is a provider. -/
def replacingProvider : Option Hex :=
  m.localKeys.keys.find? fun pub =>
    (m.provider? pub).any fun p => JsNumber.lt (JsNumber.ofInt 0) p.capacityGB

/-- A provider of this device, or of none, that had the old content cached. -/
def wasProvider (pub : Hex) (oldCid : Cid) : Bool :=
  (m.provider? pub).any (fun p => p.deviceId == "" || p.deviceId == m.deviceId) &&
    m.store.cached.has oldCid

def handleReplaceRequest (req : ReplaceRequest) (fetched : Cid → Option Bytes)
    (timestamp : Int) : StorageManager F × List StorageReceipt :=
  if req.oldCid = "" ∨ req.newCid = "" ∨ req.ownerPub = "" ∨ req.signature = "" then (m, [])
  else if !E.verifyMsg req.signature req.payload req.ownerPub then (m, [])
  else if !m.storeStarted then (m, [])
  else
    let pub? := m.replacingProvider.filter (m.wasProvider · req.oldCid)
    let store := (req.oldCid :: req.oldAdditionalCids).foldl SmokeStore.deleteBlock m.store
    let (store, cached) := match pub? with
      | some _ => store.cacheUntil req.ownerPub fetched (req.newCid :: req.newAdditionalCids)
      | none => (store, false)
    let receipts := match pub? with
      | some pub => if cached then m.custodyReceipt E pub req.newCid 0 timestamp else []
      | none => []
    let m := { m with store }
    match m.trackedCids.get? req.oldCid with
    | some tracked =>
      (if tracked.ownerPub = req.ownerPub then m.forget req.oldCid else m, receipts)
    | none => (m, receipts)

end Requests

/-! ## Announcements -/

/-- The handler of file announcements. -/
def onFileAnnouncement (a : FileIndexRecord F) (removed : Bool) : StorageManager F :=
  if !m.localKeys.has a.uploaderPub then m
  else if removed then { m with fileIndex := m.fileIndex.delete a.cid }
  else { m with fileIndex := m.fileIndex.set a.cid a }

/-! ## Spot checks -/

section SpotChecks

variable [JsNumber F]

/-- The providers that a round probes for one CID: those confirmed, and when it has too few
live holders those that are not, as far as they have an address. -/
def probed (underReplicated : Bool) (tracked : TrackedCid) : List Hex :=
  let confirmed := tracked.confirmedProviders.keys.filter fun pub =>
    (m.provider? pub).any fun p => truthy p.smokeAddr
  let unconfirmed := m.ledger.providerLedger.allProviders.filter fun p =>
    truthy p.smokeAddr && !tracked.confirmedProviders.has p.pub &&
      (p.deviceId == "" || p.deviceId != m.deviceId)
  confirmed ++ if underReplicated then unconfirmed.map fun p => p.pub else []

/-- The receipt for one probe: a failure counts against a confirmed provider only, and not
when it has just been evicted. -/
def probeReceipt (priv : String) (myPub : Hex) (cid : Cid) (tracked : TrackedCid) (timestamp : Int)
    (pub : Hex) : Probe → Option StorageReceipt
  | .served latencyMs => E.receiptOf priv pub myPub cid latencyMs true timestamp
  | .tampered => none
  | .failed evicted =>
    if tracked.confirmedProviders.has pub && !evicted then
      E.receiptOf priv pub myPub cid 9999 false timestamp
    else none

/-- The confirmed providers after one probe. -/
def afterProbe (tracked : TrackedCid) (pub : Hex) : Probe → TrackedCid
  | .served _ => { tracked with
      confirmedProviders := JsSet.add tracked.confirmedProviders pub }
  | .tampered => { tracked with confirmedProviders := tracked.confirmedProviders.delete pub }
  | .failed evicted =>
    if evicted then { tracked with confirmedProviders := tracked.confirmedProviders.delete pub }
    else tracked

/-- One round of spot checks: `underReplicated` says which CIDs have too few live holders,
`probe` what each probe comes to. -/
def runSpotChecks (underReplicated : Cid → Bool) (probe : Cid → Hex → Probe) (timestamp : Int) :
    StorageManager F × List StorageReceipt :=
  match m.storeStarted, m.localKeys.entries with
  | true, (myPub, priv) :: _ =>
    let receipts := m.trackedCids.entries.flatMap fun e =>
      (m.probed (underReplicated e.1) e.2).filterMap fun pub =>
        probeReceipt E priv myPub e.1 e.2 timestamp pub (probe e.1 pub)
    let trackedCids := m.trackedCids.entries.foldl (fun t e =>
      t.set e.1 ((m.probed (underReplicated e.1) e.2).foldl
        (fun tracked pub => afterProbe tracked pub (probe e.1 pub)) e.2)) m.trackedCids
    ({ m with trackedCids }, receipts)
  | _, _ => (m, [])

end SpotChecks

end StorageManager

end NeuronWeb
