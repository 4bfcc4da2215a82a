/-
  Storage/Devices: does only the registered device write unattended?

  Several devices hold the keys of one account.  The newest register block of its chain
  names one of them, and the others must stay silent: two unattended writers fork the
  chain.  The handlers of pushed blocks and of cache requests ask `servesFromThisDevice`,
  the one of replace requests an older rule.  Settlement and spot checks do not ask.
-/
import NeuronWeb.Storage.Messages
import NeuronWeb.Storage.PendingReceipts

set_option autoImplicit false

namespace NeuronWeb

variable {F : Type} [JsNumber F]

/-! ## What a device does unattended -/

/-- A timer or a message handler of one device.  `broadcastStorageStats` publishes presence
beacons only, and is none of them. -/
inductive DeviceTask (F : Type) where
  /-- A settlement pass visits one local account. -/
  | settle (pub : Hex) (now stamp : Int)
  | push (cid : Cid) (uploaderPub : Option Hex) (timestamp : Int)
  | cacheRequest (req : CacheRequest F) (fetched : Cid → Option Bytes) (latencyMs timestamp : Int)
  | replaceRequest (req : ReplaceRequest) (fetched : Cid → Option Bytes) (timestamp : Int)
  | deleteRequest (req : DeleteRequest)
  | spotChecks (underReplicated : Cid → Bool) (probe : Cid → Hex → Probe) (timestamp : Int)
  | readReceipt (env : SignedReceipt F)
  /-- The ledger learns blocks from others. -/
  | learn (ledger : EngineLedger F)

namespace StorageManager

variable (E : StorageEnv F)

/-- The manager after a task, and the receipts it publishes. -/
def act (m : StorageManager F) : DeviceTask F → StorageManager F × List StorageReceipt
  | .settle pub now stamp =>
    match m.localKeys.get? pub with
    | some priv =>
      let r := m.settleAccount E now stamp pub priv
      (r.1.afterSettle r.2, [])
    | none => (m, [])
  | .push cid uploaderPub timestamp => m.blockPushHandler E cid uploaderPub timestamp
  | .cacheRequest req fetched latencyMs timestamp =>
    m.handleCacheRequest E req fetched latencyMs timestamp
  | .replaceRequest req fetched timestamp => m.handleReplaceRequest E req fetched timestamp
  | .deleteRequest req => (m.handleDeleteRequest E req, [])
  | .spotChecks underReplicated probe timestamp =>
    m.runSpotChecks E underReplicated probe timestamp
  | .readReceipt env => (m.acceptReadReceipt E env, [])
  | .learn ledger => ({ m with ledger }, [])

end StorageManager

/-- The devices of a run. -/
abbrev Fleet (F : Type) := List (StorageManager F)

namespace Fleet

variable (E : StorageEnv F)

/-- The `n`-th device does something. -/
def step (s : Fleet F) (call : Nat × DeviceTask F) : Fleet F :=
  s.modify call.1 fun m => (m.act E call.2).1

/-! ## Who may write -/

/-- The newest register block of `P`, as this device knows it, names the device `d`. -/
def Names (P : Hex) (d : String) (m : StorageManager F) : Prop :=
  ∃ p, m.provider? P = some p ∧ p.deviceId = d

/-- The task writes no block behind the chain of `P`, and publishes no receipt that `P` signs
for itself. -/
def Silent (P : Hex) (m : StorageManager F) (task : DeviceTask F) : Prop :=
  ((∀ ledger, task ≠ .learn ledger) →
      (m.act E task).1.ledger.getAccountChain P = m.ledger.getAccountChain P) ∧
    ∀ receipt ∈ (m.act E task).2, ¬ (receipt.providerPub = P ∧ receipt.requesterPub = P)

/-- Only the device `d` writes for `P`. -/
def OnlyDevice (P : Hex) (d : String) (s : Fleet F) (call : Nat × DeviceTask F)
    (_ : Fleet F) : Prop :=
  ∀ m, s[call.1]? = some m → m.deviceId ≠ d → Silent E P m call.2

/-- What is promised: a device learns chains of `P` that name `d` too. -/
def SameRegistration (P : Hex) (d : String) (_ : Fleet F) (call : Nat × DeviceTask F) : Prop :=
  ∀ ledger, call.2 = .learn ledger →
    ∃ p, ledger.providerLedger.providers.get? P = some p ∧ p.deviceId = d

/-- A task that asks for no device leaves `P` alone: a settlement finds `P` not due or without
a head, or its key does not sign, and a spot check probes `P` with another account's key. -/
def Spares (P : Hex) (d : String) (s : Fleet F) (call : Nat × DeviceTask F) : Prop :=
  ∀ m, s[call.1]? = some m → m.deviceId ≠ d →
    match call.2 with
    | .settle pub now _ => pub = P → ∀ priv, m.localKeys.get? P = some priv →
        (StorageManager.DueWithCredit E m now P → m.ledger.heldHead P = none) ∨
          ∀ message, E.primitives.sign message priv = none
    | .spotChecks underReplicated _ _ => m.localKeys.keys.head? = some P →
        ∀ e ∈ m.trackedCids.entries, P ∉ m.probed (underReplicated e.1) e.2
    | _ => True

end Fleet

/-! ## One task -/

namespace StorageManager

variable {E : StorageEnv F} {m : StorageManager F} {P : Hex} {d : String}

section

omit [JsNumber F]

theorem receiptOf_parties {priv : String} {providerPub requesterPub : Hex} {cid : Cid}
    {latencyMs timestamp : Int} {success : Bool} {receipt : StorageReceipt}
    (h : E.receiptOf priv providerPub requesterPub cid latencyMs success timestamp =
      some receipt) : receipt.providerPub = providerPub ∧ receipt.requesterPub = requesterPub := by
  obtain ⟨signature, -, rfl⟩ := Option.map_eq_some_iff.mp h
  exact ⟨rfl, rfl⟩

theorem custodyReceipt_parties {pub : Hex} {cid : Cid} {latencyMs timestamp : Int}
    {receipt : StorageReceipt} (h : receipt ∈ m.custodyReceipt E pub cid latencyMs timestamp) :
    receipt.providerPub = pub := by
  unfold custodyReceipt at h
  split at h
  · split at h
    · exact (receiptOf_parties (Option.mem_toList.mp h)).1
    · cases h
  · cases h

theorem not_servesFromThisDevice (hnames : Fleet.Names P d m) (hdevice : m.deviceId ≠ d) :
    m.servesFromThisDevice P = false := by
  obtain ⟨p, hp, rfl⟩ := hnames
  unfold servesFromThisDevice
  rw [hp, Option.any_some]
  simp [Ne.symm hdevice]

theorem blockPushHandler_silent (hnames : Fleet.Names P d m) (hdevice : m.deviceId ≠ d)
    (cid : Cid) (uploaderPub : Option Hex) (timestamp : Int) :
    ∀ receipt ∈ (m.blockPushHandler E cid uploaderPub timestamp).2, receipt.providerPub ≠ P := by
  unfold blockPushHandler
  cases hfind : m.localKeys.keys.find? m.servesFromThisDevice with
  | none => simp
  | some pub =>
    simp only
    split
    · simp
    · intro receipt hreceipt
      rw [custodyReceipt_parties hreceipt]
      rintro rfl
      have hserves := List.find?_some hfind
      rw [not_servesFromThisDevice hnames hdevice] at hserves
      cases hserves

end

theorem cachingProvider_serves {req : CacheRequest F} {pub : Hex}
    (h : m.cachingProvider E req = some pub) : m.servesFromThisDevice pub = true := by
  unfold cachingProvider at h
  split at h
  · cases h
  · split at h
    · cases h
    · split at h
      · cases h
      · split at h
        · cases h
        · split at h
          · cases h
          · rename_i hserves
            split at h
            · cases h
            · split at h
              · cases h
              · cases h
                simpa using hserves

theorem handleCacheRequest_silent (hnames : Fleet.Names P d m) (hdevice : m.deviceId ≠ d)
    (req : CacheRequest F) (fetched : Cid → Option Bytes) (latencyMs timestamp : Int) :
    ∀ receipt ∈ (m.handleCacheRequest E req fetched latencyMs timestamp).2,
      receipt.providerPub ≠ P := by
  unfold handleCacheRequest
  cases hprovider : m.cachingProvider E req with
  | none => simp
  | some pub =>
    simp only
    split
    · intro receipt hreceipt
      rw [custodyReceipt_parties hreceipt]
      rintro rfl
      have hserves := cachingProvider_serves hprovider
      rw [not_servesFromThisDevice hnames hdevice] at hserves
      cases hserves
    · simp

omit [JsNumber F] in
theorem not_wasProvider (hd : d ≠ "") (hnames : Fleet.Names P d m) (hdevice : m.deviceId ≠ d)
    (oldCid : Cid) : m.wasProvider P oldCid = false := by
  obtain ⟨p, hp, rfl⟩ := hnames
  unfold wasProvider
  rw [hp, Option.any_some]
  simp [hd, Ne.symm hdevice]

theorem handleReplaceRequest_silent (hd : d ≠ "") (hnames : Fleet.Names P d m)
    (hdevice : m.deviceId ≠ d) (req : ReplaceRequest) (fetched : Cid → Option Bytes)
    (timestamp : Int) : ∀ receipt ∈ (m.handleReplaceRequest E req fetched timestamp).2,
      receipt.providerPub ≠ P := by
  unfold handleReplaceRequest
  split
  · simp
  · split
    · simp
    · split
      · simp
      · simp only
        cases hpub : m.replacingProvider.filter (m.wasProvider · req.oldCid) with
        | none =>
          simp only
          split <;> simp
        | some pub =>
          have hwas : m.wasProvider pub req.oldCid = true :=
            (Option.filter_eq_some_iff.mp hpub).2
          simp only
          have hparties : ∀ (m' : StorageManager F) (cached : Bool), ∀ receipt ∈
              (if cached = true then m'.custodyReceipt E pub req.newCid 0 timestamp else []),
              receipt.providerPub ≠ P := by
            intro m' cached receipt hreceipt
            split at hreceipt
            · rw [custodyReceipt_parties hreceipt]
              rintro rfl
              rw [not_wasProvider hd hnames hdevice] at hwas
              cases hwas
            · cases hreceipt
          split
          · exact hparties _ _
          · exact hparties _ _

/-! ## The ledger -/

omit [JsNumber F] in
theorem blockPushHandler_ledger (cid : Cid) (uploaderPub : Option Hex) (timestamp : Int) :
    (m.blockPushHandler E cid uploaderPub timestamp).1.ledger = m.ledger := by
  unfold blockPushHandler
  split
  · rfl
  · split <;> rfl

theorem handleCacheRequest_ledger (req : CacheRequest F) (fetched : Cid → Option Bytes)
    (latencyMs timestamp : Int) :
    (m.handleCacheRequest E req fetched latencyMs timestamp).1.ledger = m.ledger := by
  unfold handleCacheRequest
  split
  · rfl
  · split <;> rfl

theorem handleReplaceRequest_ledger (req : ReplaceRequest) (fetched : Cid → Option Bytes)
    (timestamp : Int) : (m.handleReplaceRequest E req fetched timestamp).1.ledger = m.ledger := by
  unfold handleReplaceRequest
  split
  · rfl
  · split
    · rfl
    · split
      · rfl
      · simp only
        split
        · simp only
          split <;> rfl
        · rfl

theorem runSpotChecks_ledger (underReplicated : Cid → Bool) (probe : Cid → Hex → Probe)
    (timestamp : Int) :
    (m.runSpotChecks E underReplicated probe timestamp).1.ledger = m.ledger := by
  unfold runSpotChecks
  split <;> rfl

omit [JsNumber F] in
theorem handleDeleteRequest_ledger (req : DeleteRequest) :
    (m.handleDeleteRequest E req).ledger = m.ledger := by
  unfold handleDeleteRequest
  split
  · rfl
  · split
    · rfl
    · split
      · rfl
      · simp only
        split <;> rfl

theorem acceptReadReceipt_ledger (env : SignedReceipt F) :
    (m.acceptReadReceipt E env).ledger = m.ledger := by
  unfold acceptReadReceipt
  simp only
  split <;> rfl

theorem runSpotChecks_silent {underReplicated : Cid → Bool} {probe : Cid → Hex → Probe}
    {timestamp : Int} (h : m.localKeys.keys.head? = some P →
      ∀ e ∈ m.trackedCids.entries, P ∉ m.probed (underReplicated e.1) e.2) :
    ∀ receipt ∈ (m.runSpotChecks E underReplicated probe timestamp).2,
      ¬ (receipt.providerPub = P ∧ receipt.requesterPub = P) := by
  unfold runSpotChecks
  split
  · rename_i myPub priv rest _ hkeys
    intro receipt hreceipt
    simp only [List.mem_flatMap, List.mem_filterMap] at hreceipt
    obtain ⟨e, he, pub, hpub, hreceipt⟩ := hreceipt
    have hparties : receipt.providerPub = pub ∧ receipt.requesterPub = myPub := by
      unfold probeReceipt at hreceipt
      split at hreceipt
      · exact receiptOf_parties hreceipt
      · cases hreceipt
      · split at hreceipt
        · exact receiptOf_parties hreceipt
        · cases hreceipt
    rw [hparties.1, hparties.2]
    rintro ⟨rfl, rfl⟩
    have hfirst : m.localKeys.keys.head? = some myPub := by
      unfold JsMap.keys
      rw [hkeys]
      rfl
    exact h hfirst e he hpub
  · simp

theorem settleAccount_silent {pub : Hex} {priv : String} {now stamp : Int}
    (h : pub = P → (DueWithCredit E m now P → m.ledger.heldHead P = none) ∨
      ∀ message, E.primitives.sign message priv = none) :
    (m.settleAccount E now stamp pub priv).1.ledger.getAccountChain P =
      m.ledger.getAccountChain P := by
  rcases settleAccount_cases E m now stamp pub priv with ⟨hskip, -⟩ | ⟨hcall, hdue, -⟩
  · rw [hskip]
  · rw [hcall]
    rcases EngineLedger.createStorageSettle_chains E.primitives m.ledger pub priv
        m.settlementReceipts _ _ _ stamp with ⟨-, hkept⟩ | ⟨block, hblock, -, -, hchain⟩
    · exact hkept P
    · refine (hchain P).trans ?_
      split
      · rename_i hpub
        subst hpub
        obtain ⟨hpay, hhead, message, hsigns⟩ := EngineLedger.payable_of_created hblock
        rcases h rfl with hquiet | hsign
        · exact absurd (hquiet ⟨hdue, hpay⟩) hhead
        · exact absurd (hsign message) hsigns
      · rfl

omit [JsNumber F] in
theorem afterSettle_ledger (m : StorageManager F) (visit : SettleVisit F) :
    (m.afterSettle visit).ledger = m.ledger := by
  unfold afterSettle
  split <;> rfl

theorem act_settle_silent {pub : Hex} {now stamp : Int}
    (h : pub = P → ∀ priv, m.localKeys.get? P = some priv →
      (DueWithCredit E m now P → m.ledger.heldHead P = none) ∨
        ∀ message, E.primitives.sign message priv = none) :
    Fleet.Silent E P m (.settle pub now stamp) := by
  unfold Fleet.Silent act
  simp only
  cases hpriv : m.localKeys.get? pub with
  | none => exact ⟨fun _ => rfl, by simp⟩
  | some priv =>
    refine ⟨fun _ => ?_, by simp⟩
    simp only
    rw [afterSettle_ledger]
    exact settleAccount_silent fun hpub => h hpub priv (hpub ▸ hpriv)

/-- A task on a device that is not the registered one, as far as it asks for no device. -/
theorem act_silent (hd : d ≠ "") (hnames : Fleet.Names P d m) (hdevice : m.deviceId ≠ d)
    (task : DeviceTask F) (hsettle : ∀ pub now stamp, task = .settle pub now stamp → pub = P →
      ∀ priv, m.localKeys.get? P = some priv →
        (DueWithCredit E m now P → m.ledger.heldHead P = none) ∨
          ∀ message, E.primitives.sign message priv = none)
    (hspot : ∀ underReplicated probe timestamp,
      task = .spotChecks underReplicated probe timestamp → m.localKeys.keys.head? = some P →
        ∀ e ∈ m.trackedCids.entries, P ∉ m.probed (underReplicated e.1) e.2) :
    Fleet.Silent E P m task := by
  have hself {receipts : List StorageReceipt}
      (h : ∀ receipt ∈ receipts, receipt.providerPub ≠ P) :
      ∀ receipt ∈ receipts, ¬ (receipt.providerPub = P ∧ receipt.requesterPub = P) :=
    fun receipt hreceipt hparties => h receipt hreceipt hparties.1
  have hchain {ledger : EngineLedger F} (h : ledger = m.ledger) :
      ledger.getAccountChain P = m.ledger.getAccountChain P := by rw [h]
  cases task with
  | settle pub now stamp => exact act_settle_silent (hsettle pub now stamp rfl)
  | push cid uploaderPub timestamp =>
    exact ⟨fun _ => hchain (blockPushHandler_ledger cid uploaderPub timestamp),
      hself (blockPushHandler_silent hnames hdevice cid uploaderPub timestamp)⟩
  | cacheRequest req fetched latencyMs timestamp =>
    exact ⟨fun _ => hchain (handleCacheRequest_ledger req fetched latencyMs timestamp),
      hself (handleCacheRequest_silent hnames hdevice req fetched latencyMs timestamp)⟩
  | replaceRequest req fetched timestamp =>
    exact ⟨fun _ => hchain (handleReplaceRequest_ledger req fetched timestamp),
      hself (handleReplaceRequest_silent hd hnames hdevice req fetched timestamp)⟩
  | deleteRequest req =>
    exact ⟨fun _ => hchain (handleDeleteRequest_ledger req), fun _ h => by cases h⟩
  | spotChecks underReplicated probe timestamp =>
    exact ⟨fun _ => hchain (runSpotChecks_ledger underReplicated probe timestamp),
      runSpotChecks_silent (hspot underReplicated probe timestamp rfl)⟩
  | readReceipt receipt =>
    exact ⟨fun _ => hchain (acceptReadReceipt_ledger receipt), fun _ h => by cases h⟩
  | learn ledger => exact ⟨fun h => absurd rfl (h ledger), fun _ h => by cases h⟩

/-! ## The registration stays -/

/-- The device that the provider record of `x` names. -/
def deviceOf (L : EngineLedger F) (x : Hex) : Option String :=
  (L.providerLedger.providers.get? x).map fun p => p.deviceId

theorem deviceOf_applyStorage (P : Primitives F) (L : EngineLedger F) {block : Block F}
    (htype : block.type = .storageSettle) (x : Hex) :
    deviceOf (EngineLedger.applyStorage P L block) x = deviceOf L x := by
  unfold deviceOf EngineLedger.applyStorage ProviderLedger.apply
  simp only [htype]
  unfold ProviderLedger.applySettle
  split
  · simp only
    cases hprovider : L.providerLedger.providers.get? block.accountId with
    | none => rfl
    | some p =>
      simp only [JsMap.get?_set]
      split
      · rename_i hx
        rw [← hx, hprovider]
        rfl
      · rfl
  · rfl

theorem deviceOf_settleAccount (now stamp : Int) (pub : Hex) (priv : String) (x : Hex) :
    deviceOf (m.settleAccount E now stamp pub priv).1.ledger x = deviceOf m.ledger x := by
  rcases settleAccount_cases E m now stamp pub priv with ⟨hskip, -⟩ | ⟨hcall, -⟩
  · rw [hskip]
  · rw [hcall]
    by_cases hready : m.ledger.Payable E.primitives pub m.settlementReceipts ∧
        m.ledger.heldHead pub ≠ none
    · obtain ⟨⟨h, head⟩, hhead⟩ := Option.ne_none_iff_exists'.mp hready.2
      unfold settleCall
      rw [EngineLedger.createStorageSettle_appends _ _ _ _ _ _ _ _ _ hready.1 hhead]
      split
      · rfl
      · unfold EngineLedger.appendStorageBlock
        rcases EngineLedger.appendOwn_cases h _ priv (EngineLedger.applyStorage E.primitives) with
          ⟨acc, hthrown⟩ | ⟨acc, block, hcreate, happended⟩
        · rw [hthrown]
          rfl
        · rw [happended]
          obtain ⟨hcontent, -⟩ := createBlock_eq_some hcreate
          have htype : block.type = .storageSettle :=
            (congrArg BlockContent.type hcontent).trans rfl
          exact deviceOf_applyStorage E.primitives _ htype x
    · obtain ⟨error, hrefused⟩ := settleCall_refuses E m now stamp pub priv fun hpay => by
          by_contra hhead
          exact hready ⟨hpay, hhead⟩
      rw [hrefused]

omit [JsNumber F] in
theorem names_iff : Fleet.Names P d m ↔ deviceOf m.ledger P = some d := by
  unfold Fleet.Names deviceOf provider?
  rw [Option.map_eq_some_iff]

/-- Whatever a device does, its ledger and its own id stay, but for a settle block and for
what it learns. -/
theorem act_names (hnames : Fleet.Names P d m) {task : DeviceTask F}
    (hlearn : ∀ ledger, task = .learn ledger →
      ∃ p, ledger.providerLedger.providers.get? P = some p ∧ p.deviceId = d) :
    Fleet.Names P d (m.act E task).1 := by
  have hsame {m' : StorageManager F} (h : m'.ledger = m.ledger) : Fleet.Names P d m' := by
    rw [names_iff, h, ← names_iff]
    exact hnames
  cases task with
  | settle pub now stamp =>
    simp only [act]
    cases m.localKeys.get? pub with
    | none => exact hnames
    | some priv =>
      rw [names_iff]
      simp only
      rw [afterSettle_ledger, deviceOf_settleAccount, ← names_iff]
      exact hnames
  | push cid uploaderPub timestamp =>
    exact hsame (blockPushHandler_ledger cid uploaderPub timestamp)
  | cacheRequest req fetched latencyMs timestamp =>
    exact hsame (handleCacheRequest_ledger req fetched latencyMs timestamp)
  | replaceRequest req fetched timestamp =>
    exact hsame (handleReplaceRequest_ledger req fetched timestamp)
  | deleteRequest req => exact hsame (handleDeleteRequest_ledger req)
  | spotChecks underReplicated probe timestamp =>
    exact hsame (runSpotChecks_ledger underReplicated probe timestamp)
  | readReceipt receipt => exact hsame (acceptReadReceipt_ledger receipt)
  | learn ledger => exact hlearn ledger rfl

end StorageManager

/-! ## A run -/

namespace Fleet

variable {E : StorageEnv F} {P : Hex} {d : String}

theorem names_step {s : Fleet F} {call : Nat × DeviceTask F} (hs : ∀ m ∈ s, Names P d m)
    (hlearn : SameRegistration P d s call) : ∀ m ∈ step E s call, Names P d m := by
  intro m hm
  obtain ⟨i, hi, rfl⟩ := List.mem_iff_getElem.mp hm
  unfold step at hi ⊢
  rw [List.getElem_modify]
  rw [List.length_modify] at hi
  split
  · exact StorageManager.act_names (hs _ (List.getElem_mem hi)) hlearn
  · exact hs _ (List.getElem_mem hi)

theorem onlyDevice_step (hd : d ≠ "") {s : Fleet F} {call : Nat × DeviceTask F}
    (hs : ∀ m ∈ s, Names P d m) (hspares : Spares E P d s call) :
    OnlyDevice E P d s call (step E s call) := by
  intro m hm hdevice
  have hspared := hspares m hm hdevice
  have hnames := hs m (List.mem_of_getElem? hm)
  refine StorageManager.act_silent hd hnames hdevice call.2 ?_ ?_
  · intro pub now stamp htask
    rw [htask] at hspared
    exact hspared
  · intro underReplicated probe timestamp htask
    rw [htask] at hspared
    exact hspared

/-- In a run in which no device but the registered one settles a due `P` with a key that
signs, or spot-checks `P` as `P`, none of them writes for `P`. -/
theorem onlyDevice_always (E : StorageEnv F) (P : Hex) (d : String) (hd : d ≠ "") (s : Fleet F)
    (hs : ∀ m ∈ s, Names P d m) (calls : List (Nat × DeviceTask F))
    (hcalls : Run.StepsMeet (step E)
      (fun s call => SameRegistration P d s call ∧ Spares E P d s call) s calls) :
    Run.EveryStep (step E) (OnlyDevice E P d) s calls :=
  Run.everyStep_of_invariant (I := fun s => ∀ m ∈ s, Names P d m)
    (fun _ _ h hcall => names_step h hcall.1) (fun _ _ h hcall => onlyDevice_step hd h hcall.2)
    hs hcalls

/-! ## An account on two devices -/

section Examples

open StorageManager.Sample

/-- The registered device. -/
def desk : StorageManager Rat := idle "desk" (JsMap.empty.set "aa" appKey)

/-- The other device: it has published a file that the registered one caches. -/
def phone : StorageManager Rat :=
  let ledger := desk.ledger
  let providers := ledger.providerLedger.providers.entries.foldl
    (fun m e => m.set e.1 { e.2 with smokeAddr := some "desk-addr" })
    ledger.providerLedger.providers
  { idle "phone" (JsMap.empty.set "aa" appKey) with
    ledger := { ledger with providerLedger := { ledger.providerLedger with providers } }
    trackedCids := JsMap.empty.set "file" ⟨"aa", JsSet.add JsMap.empty "aa", []⟩ }

theorem names_desk_phone : ∀ m ∈ [desk, phone], Names "aa" "desk" m := by
  rw [List.forall_mem_cons, List.forall_mem_singleton, StorageManager.names_iff,
    StorageManager.names_iff]
  exact ⟨by decide +kernel, by decide +kernel⟩

/-- A settlement and a pushed block on the other device, and a pushed block on the registered
one. -/
def quietRun : List (Nat × DeviceTask Rat) :=
  [(1, .settle "aa" 30000 30000), (1, .push "file" none 3), (0, .push "file" none 3)]

theorem onlyDevice_always_quietRun :
    (∀ m ∈ [desk, phone], Names "aa" "desk" m) ∧
      Run.EveryStep (step env) (OnlyDevice env "aa" "desk") [desk, phone] quietRun := by
  refine ⟨names_desk_phone, onlyDevice_always env "aa" "desk" (by decide) [desk, phone]
    names_desk_phone quietRun ⟨⟨?_, ?_⟩, ⟨?_, ?_⟩, ⟨?_, ?_⟩, trivial⟩⟩
  · intro ledger hlearn
    cases hlearn
  · intro m hm _ _ priv hpriv
    cases hm
    have hkey : phone.localKeys.get? "aa" = some appKey := by rfl
    rw [hkey] at hpriv
    cases hpriv
    exact .inr fun message => signsWithHex_hexPrimitives message appKey appPrivate_appKey.not_hex
  · intro ledger hlearn
    cases hlearn
  · exact fun _ _ _ => trivial
  · intro ledger hlearn
    cases hlearn
  · exact fun _ _ _ => trivial

/-- A round of spot checks, in which the registered device serves the file. -/
def spotCheckRun : List (Nat × DeviceTask Rat) :=
  [(0, .spotChecks (fun _ => false) (fun _ _ => .served 5) 7)]

/-- The other device spot-checks the registered one, and signs for the account that it holds
the file. -/
theorem spot_check_signs_elsewhere :
    ¬ ∀ (E : StorageEnv Rat) (P : Hex) (d : String) (s : Fleet Rat)
      (calls : List (Nat × DeviceTask Rat)), d ≠ "" → (∀ m ∈ s, Names P d m) →
      Run.StepsMeet (step E) (SameRegistration P d) s calls →
      Run.EveryStep (step E) (OnlyDevice E P d) s calls := by
  intro hall
  have hrun := hall env "aa" "desk" [phone] spotCheckRun (by decide)
    (fun m hm => names_desk_phone m (List.mem_cons_of_mem _ hm))
    ⟨fun ledger hlearn => (by cases hlearn), trivial⟩
  obtain ⟨-, hsilent⟩ := hrun.1 phone rfl (by decide)
  have hsigned : ((phone.act env (.spotChecks (fun _ => false) (fun _ _ => .served 5) 7)).2.any
      fun receipt => receipt.providerPub = "aa" && receipt.requesterPub = "aa") = true := by
    decide +kernel
  obtain ⟨receipt, hreceipt, hparties⟩ := List.any_eq_true.mp hsigned
  simp only [Bool.and_eq_true, decide_eq_true_eq] at hparties
  exact hsilent receipt hreceipt hparties

end Examples

end Fleet

end NeuronWeb
