/-
  Content/CustodyLiveness: whether a provider still counts, decided by what it was seen
  doing (`CustodyLiveness` in `engine/content/custody-sampling.ts`), and the questions that
  the provider ledger answers from it.

  The selection of challenges and the economics of cheating in the same file touch no
  ledger state, and `forget` and `sweep` have no caller outside the simulations.
-/
import NeuronWeb.Content.ProviderLedger

set_option autoImplicit false

namespace NeuronWeb

/-- Consecutive failures before a provider stops counting. -/
def FAILURES_BEFORE_EVICTION : Nat := 2

structure LivenessObservation where
  ok : Bool
  /-- The clock reading of the observation, `at` in the source. -/
  seenAt : Int
  deriving DecidableEq, Repr, Inhabited

structure CustodyLiveness where
  last : JsMap Hex LivenessObservation
  failStreak : JsMap Hex Nat
  firstSeen : JsMap Hex Int

namespace CustodyLiveness

/-- `new CustodyLiveness()`. -/
def new : CustodyLiveness := ⟨JsMap.empty, JsMap.empty, JsMap.empty⟩

/-- A provider that is known to exist and has not been probed yet. -/
def noteRegistered (T : CustodyLiveness) (provider : Hex) (since : Int) : CustodyLiveness :=
  if T.firstSeen.has provider then T
  else { T with firstSeen := T.firstSeen.set provider since }

def consecutiveFailures (T : CustodyLiveness) (provider : Hex) : Nat :=
  (T.failStreak.get? provider).getD 0

/-- Note that a provider was observed serving, or failing to. -/
def record (T : CustodyLiveness) (provider : Hex) (ok : Bool) (now : Int) : CustodyLiveness :=
  let T := T.noteRegistered provider now
  { T with
    last := T.last.set provider ⟨ok, now⟩
    failStreak := T.failStreak.set provider (if ok then 0 else T.consecutiveFailures provider + 1) }

/-- Is this provider still holding, on the evidence? -/
def isLive (T : CustodyLiveness) (provider : Hex) (now maxSilenceMs : Int) : Bool :=
  if FAILURES_BEFORE_EVICTION ≤ T.consecutiveFailures provider then false
  else
    match T.last.get? provider, T.firstSeen.get? provider with
    | some obs, _ => decide (now - obs.seenAt < maxSilenceMs)
    -- never probed: live while inside the joining grace, and not after
    | none, some since => decide (now - since < maxSilenceMs)
    | none, none => false

end CustodyLiveness

/-! ## The lease of a provider -/

namespace ProviderLedger

variable {F : Type}

/-- A provider's record: of the chain we hold, else what discovery taught us. -/
def get (L : ProviderLedger F) (pub : Hex) : Option (StorageProviderState F) :=
  (L.providers.get? pub).or (L.discovered.get? pub)

variable [JsNumber F]

/-- Every known registered provider, best score first. -/
def allProviders (L : ProviderLedger F) : List (StorageProviderState F) :=
  let merged := L.providers.entries.foldl (fun m e => m.set e.1 e.2)
    (L.discovered.entries.foldl (fun m e => m.set e.1 e.2) JsMap.empty)
  (merged.values.filter fun p => JsNumber.lt (JsNumber.ofInt 0) p.capacityGB).mergeSort
    fun a b => !JsNumber.lt (JsNumber.ofInt 0) (JsNumber.sub b.score a.score)

/-- `isLive`, with the tracker it leaves behind.  `maxOfflineMs` is `MAX_OFFLINE_MS` of the
timing profile in force. -/
def isLive (maxOfflineMs : Int) (L : ProviderLedger F) (T : CustodyLiveness) (pub : Hex)
    (now : Int) : Bool × CustodyLiveness :=
  match L.get pub with
  | none => (false, T)
  | some p =>
    if JsNumber.le p.capacityGB (JsNumber.ofInt 0) then (false, T)
    else
      let T := T.noteRegistered pub p.registeredAt
      (T.isLive pub now maxOfflineMs, T)

/-- One provider through the filter of `liveProviders`. -/
def keepLive (maxOfflineMs : Int) (L : ProviderLedger F) (now : Int)
    (kept : List (StorageProviderState F) × CustodyLiveness) (p : StorageProviderState F) :
    List (StorageProviderState F) × CustodyLiveness :=
  let (ok, T) := L.isLive maxOfflineMs kept.2 p.pub now
  (if ok then kept.1 ++ [p] else kept.1, T)

/-- Every provider whose lease is live, best score first. -/
def liveProviders (maxOfflineMs : Int) (L : ProviderLedger F) (T : CustodyLiveness)
    (now : Int) : List (StorageProviderState F) × CustodyLiveness :=
  L.allProviders.foldl (keepLive maxOfflineMs L now) ([], T)

end ProviderLedger

/-! ## Telemetry -/

/-- What the storage manager writes onto a held provider record, in place
(`network/storage-manager.ts`). -/
inductive TelemetryWrite (F : Type) where
  /-- Bytes the provider reports to hold. -/
  | storedBytes (bytes : F)
  /-- A presence beacon; absent fields are left alone. -/
  | presence (smokeAddr countryCode : Option String) (reported : Option F)
  /-- The pass rate over the receipts kept, and the latency when one succeeded. -/
  | spotCheck (spotCheckPassRate : F) (avgLatencyMs : Option F)

variable {F : Type}

def TelemetryWrite.write (p : StorageProviderState F) :
    TelemetryWrite F → StorageProviderState F
  | .storedBytes bytes => { p with lastActualStoredBytes := bytes }
  | .presence smokeAddr countryCode reported =>
    { p with
      smokeAddr := if truthy smokeAddr then smokeAddr else p.smokeAddr
      countryCode := if truthy countryCode then countryCode else p.countryCode
      lastActualStoredBytes := reported.getD p.lastActualStoredBytes }
  | .spotCheck spotCheckPassRate avgLatencyMs =>
    { p with spotCheckPassRate, avgLatencyMs := avgLatencyMs.getD p.avgLatencyMs }

/-- Telemetry reaches held records only. -/
def ProviderLedger.writeTelemetry (L : ProviderLedger F) (pub : Hex) (w : TelemetryWrite F) :
    ProviderLedger F :=
  match L.providers.get? pub with
  | some p => { L with providers := L.providers.set pub (w.write p) }
  | none => L

@[simp] theorem TelemetryWrite.write_capacityGB (p : StorageProviderState F)
    (w : TelemetryWrite F) : (w.write p).capacityGB = p.capacityGB := by
  cases w <;> rfl

end NeuronWeb
