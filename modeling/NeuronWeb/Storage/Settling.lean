/-
  Storage/Settling: does a settlement pass succeed cleanly or leave no trace?

  `settleIfDue` hands the ledger the private key as the app stores it.  The engine signs
  with hex and throws on anything else, after the accumulator has been extended; nothing
  catches that inside the pass.  So a pass is clean exactly when it creates no block at all.
-/
import NeuronWeb.Ledger.Drafts
import NeuronWeb.Ledger.Sample
import NeuronWeb.Storage.Manager

set_option autoImplicit false

namespace NeuronWeb

variable {F : Type} [JsNumber F]

/-! ## The call of the ledger -/

namespace EngineLedger

/-- A registered provider has receipts that are worth something. -/
structure Payable (P : Primitives F) (L : EngineLedger F) (pub : Hex)
    (receipts : List (SignedReceipt F)) : Prop where
  registered : L.providerLedger.isRegistered pub = true
  nonempty : receipts.isEmpty = false
  credit : JsNumber.le (creditFromSignedReceipts P pub receipts
    (L.providerLedger.settledFor pub)).payableBytes (JsNumber.ofInt 0) = false

variable (P : Primitives F) (L : EngineLedger F) (pub priv : Hex)
  (receipts : List (SignedReceipt F)) (periodIndex : F) (publishRoot serviceRoot : Option String)
  (now : Int)

theorem createStorageSettle_refuses
    (h : Payable P L pub receipts → L.heldHead pub = none) :
    ∃ error, createStorageSettle P L pub priv receipts periodIndex publishRoot serviceRoot now =
      (L, .refused error) := by
  unfold createStorageSettle
  cases hhead : L.heldHead pub with
  | none => exact ⟨_, rfl⟩
  | some p =>
    simp only
    split
    · exact ⟨_, rfl⟩
    · rename_i hregistered
      split
      · exact ⟨_, rfl⟩
      · rename_i hreceipts
        split
        · exact ⟨_, rfl⟩
        · rename_i hcredit
          have hnone := h
            { registered := by simpa using hregistered
              nonempty := by simpa using hreceipts
              credit := (Bool.not_eq_true _).mp hcredit }
          rw [hhead] at hnone
          cases hnone

theorem createStorageSettle_appends (hpay : Payable P L pub receipts) {h : Held F}
    {head : Block F} (hhead : L.heldHead pub = some (h, head)) :
    createStorageSettle P L pub priv receipts periodIndex publishRoot serviceRoot now =
      match JsNumber.toBigInt (JsNumber.floor (creditFromSignedReceipts P pub receipts
        (L.providerLedger.settledFor pub)).payableBytes) with
      | none => (L, .thrown)
      | some amount => L.appendStorageBlock P h head pub priv .storageSettle
          (head.balance + amount) (settlePayload receipts periodIndex publishRoot serviceRoot)
          (some amount) now := by
  have hcredit : ProviderLedger.settlementCredit P L.providerLedger pub
      (some (settlePayload receipts periodIndex publishRoot serviceRoot)) =
      creditFromSignedReceipts P pub receipts (L.providerLedger.settledFor pub) := rfl
  unfold settlePayload at hcredit
  unfold createStorageSettle settlePayload
  rw [hhead]
  simp only [hpay.registered, hpay.nonempty, Bool.not_true, Bool.false_eq_true, if_false]
  rw [hcredit]
  refine (if_neg ((Bool.not_eq_true _).mpr hpay.credit)).trans ?_
  cases JsNumber.toBigInt (JsNumber.floor (creditFromSignedReceipts P pub receipts
    (L.providerLedger.settledFor pub)).payableBytes) <;> rfl

omit [JsNumber F] in
theorem appendOwn_throws {P : Primitives F} {priv : Hex}
    (hsign : ∀ message, P.sign message priv = none) (L : EngineLedger F) (h : Held F)
    (content : BlockContent F) (effect : EngineLedger F → Block F → EngineLedger F) :
    appendOwn P L h content priv effect =
      (L.hold content.accountId
        ⟨h.chain, h.acc ++ [P.sha256 (P.encodeJson (canonicalContent content).sortValue)]⟩,
        .thrown) := by
  unfold appendOwn createBlock
  simp only [append_computeContentHash, hsign]

theorem createStorageSettle_throws (hpay : Payable P L pub receipts)
    (hhead : L.heldHead pub ≠ none) (hsign : ∀ message, P.sign message priv = none) :
    (createStorageSettle P L pub priv receipts periodIndex publishRoot serviceRoot now).2 =
      .thrown := by
  obtain ⟨⟨h, head⟩, hsome⟩ := Option.ne_none_iff_exists'.mp hhead
  rw [createStorageSettle_appends P L pub priv receipts periodIndex publishRoot serviceRoot now
    hpay hsome]
  split
  · rfl
  · unfold appendStorageBlock
    rw [appendOwn_throws hsign]

variable {P L pub priv receipts periodIndex publishRoot serviceRoot now} in
theorem payable_of_created {block : Block F}
    (h : (createStorageSettle P L pub priv receipts periodIndex publishRoot serviceRoot now).2 =
      .created block) :
    Payable P L pub receipts ∧ L.heldHead pub ≠ none ∧ ∃ message, P.sign message priv ≠ none := by
  by_contra hmissing
  by_cases hready : Payable P L pub receipts ∧ L.heldHead pub ≠ none
  · have hsign : ∀ message, P.sign message priv = none := by
      intro message
      by_contra hsome
      exact hmissing ⟨hready.1, hready.2, message, hsome⟩
    rw [createStorageSettle_throws P L pub priv receipts periodIndex publishRoot serviceRoot now
      hready.1 hready.2 hsign] at h
    cases h
  · obtain ⟨error, hrefused⟩ := createStorageSettle_refuses P L pub priv receipts periodIndex
      publishRoot serviceRoot now fun hpay => by
        by_contra hhead
        exact hready ⟨hpay, hhead⟩
    rw [hrefused] at h
    cases h

/-- The call leaves every chain alone and returns no block, or appends the settle block it
returns to the chain of its account. -/
theorem createStorageSettle_chains :
    let r := createStorageSettle P L pub priv receipts periodIndex publishRoot serviceRoot now
    ((∀ block, r.2 ≠ .created block) ∧ ∀ x, r.1.getAccountChain x = L.getAccountChain x) ∨
      ∃ block, r.2 = .created block ∧ block.type = .storageSettle ∧
        block.storage = some (settlePayload receipts periodIndex publishRoot serviceRoot) ∧
        ∀ x, r.1.getAccountChain x =
          if pub = x then L.getAccountChain x ++ [block] else L.getAccountChain x := by
  intro r
  have houtcome := createStorageSettle_outcome P L pub priv receipts periodIndex publishRoot
    serviceRoot now
  rcases houtcome.signs with hquiet | ⟨h, head, block, acc, effect, hsigns, hr⟩
  · exact .inl hquiet
  · right
    have hdraft := hsigns.draft
    have hchain : ∀ x, (L.afterOwn pub h acc effect block).getAccountChain x =
        if pub = x then L.getAccountChain x ++ [block] else L.getAccountChain x := by
      intro x
      have hsame := hdraft.sameChains
        ((L.hold pub ⟨h.chain ++ [block], acc⟩).indexBlock block) block
      have hheld : (L.afterOwn pub h acc effect block).held =
          (L.hold pub ⟨h.chain ++ [block], acc⟩).held := hsame.held
      rw [getAccountChain_congr hheld, getAccountChain_hold]
      split
      · rename_i hx
        rw [← hx, getAccountChain_of_held hsigns.stored]
      · rfl
    have hr1 : r = (L.afterOwn pub h acc effect block, .created block) := hr
    have hcontent : block.type = .storageSettle ∧
        block.storage = some (settlePayload receipts periodIndex publishRoot serviceRoot) := by
      generalize block.toBlockContent = content at hdraft
      cases hdraft
      exact ⟨rfl, rfl⟩
    refine ⟨block, ?_, hcontent.1, hcontent.2, ?_⟩
    · rw [hr1]
    · rw [hr1]
      exact hchain

end EngineLedger

namespace StorageManager

variable (E : StorageEnv F)

/-! ## A clean pass -/

/-- The visit appended one settle block to the chain of `pub`, which verifies and which every
peer takes that holds the same chain and the same provider records, and has not frozen the
account. -/
def Settled (m m' : StorageManager F) (pub : Hex) : Prop :=
  ∃ h block acc, m.ledger.held.get? pub = some h ∧
    m'.ledger.held.get? pub = some ⟨h.chain ++ [block], acc⟩ ∧
    block.accountId = pub ∧ block.type = .storageSettle ∧ verifyBlock E.primitives block = true ∧
    ∀ (peer : EngineLedger F) (now : Int), peer.held.get? pub = some h →
      peer.providerLedger = m.ledger.providerLedger → peer.equivocated.has pub = false →
      (EngineLedger.addBlock E.primitives peer block now).2 = .success

/-- The visit left the chain and the accumulator of `pub` and the pending receipts alone. -/
def Untouched (m m' : StorageManager F) (pub : Hex) : Prop :=
  m'.ledger.held.get? pub = m.ledger.held.get? pub ∧ m'.pendingEnvelopes = m.pendingEnvelopes

/-- Every account of the list is settled or left alone, and the loop goes on to the next. -/
def CleanLoop (now : Int) (stamp : Hex → Int) : List (Hex × String) → StorageManager F → Prop
  | [], _ => True
  | (pub, priv) :: rest, m =>
    let r := m.settleAccount E now (stamp pub) pub priv
    r.2 ≠ .called .thrown ∧ (Settled E m r.1 pub ∨ Untouched m r.1 pub) ∧
      CleanLoop now stamp rest (r.1.afterSettle r.2)

theorem cleanLoop_cons (now : Int) (stamp : Hex → Int) (e : Hex × String)
    (rest : List (Hex × String)) (m : StorageManager F) :
    CleanLoop E now stamp (e :: rest) m ↔
      (m.settleAccount E now (stamp e.1) e.1 e.2).2 ≠ .called .thrown ∧
        (Settled E m (m.settleAccount E now (stamp e.1) e.1 e.2).1 e.1 ∨
          Untouched m (m.settleAccount E now (stamp e.1) e.1 e.2).1 e.1) ∧
        CleanLoop E now stamp rest ((m.settleAccount E now (stamp e.1) e.1 e.2).1.afterSettle
          (m.settleAccount E now (stamp e.1) e.1 e.2).2) :=
  Iff.rfl

/-- One pass over the local accounts, settled or left alone one by one. -/
def CleanPass (m : StorageManager F) (now : Int) (stamp : Hex → Int) : Prop :=
  m.started = true → CleanLoop E now stamp m.localKeys.entries m

theorem CleanPass.returns {m : StorageManager F} {now : Int} {stamp : Hex → Int}
    (h : CleanPass E m now stamp) : (settleIfDue E m now stamp).2 = true := by
  have hloop : ∀ (entries : List (Hex × String)) (m : StorageManager F),
      CleanLoop E now stamp entries m → (settleLoop E now stamp entries m).2 = true := by
    intro entries
    induction entries with
    | nil => exact fun _ _ => rfl
    | cons e rest ih =>
      intro m hclean
      obtain ⟨hreturns, -, hrest⟩ := (cleanLoop_cons E now stamp e rest m).mp hclean
      unfold settleLoop
      split
      · rename_i hthrown
        exact absurd (congrArg Prod.snd hthrown) hreturns
      · rename_i m' visit _ hvisit
        simp only [hvisit] at hrest
        exact ih _ hrest
  unfold settleIfDue
  split
  · rfl
  · rename_i hstarted
    exact hloop _ m (h (by simpa using hstarted))

/-! ## One visit -/

/-- The account is a provider and due to settle. -/
def IsDue (m : StorageManager F) (now : Int) (pub : Hex) : Prop :=
  ∃ p, m.provider? pub = some p ∧ JsNumber.same p.capacityGB (JsNumber.ofInt 0) = false ∧
    (settlementDue pub now (settlementPeriodMs E.epochMs)
      (p.lastSettledPeriod.getD (JsNumber.ofInt (-1)))
      (m.inboundReceipts.earnings pub).payableBytes).due = true

/-- The account is due to settle, with receipts that are worth something. -/
def DueWithCredit (m : StorageManager F) (now : Int) (pub : Hex) : Prop :=
  IsDue E m now pub ∧ m.ledger.Payable E.primitives pub m.settlementReceipts

/-- The call that a visit makes. -/
def settleCall (m : StorageManager F) (now stamp : Int) (pub : Hex) (priv : String) :
    EngineLedger F × CreateResult F :=
  m.ledger.createStorageSettle E.primitives pub priv m.settlementReceipts
    (JsNumber.ofInt (periodIndexAt now (settlementPeriodMs E.epochMs)))
    (some (publishRecordRoot E.primitives m.ownFileRecords))
    (some (serviceRecordRoot E.primitives (m.ledger.providerLedger.settledFor pub))) stamp

theorem settlementDue_periodIndex (accountId : Hex) (now periodMs : Int) (last pending : F) :
    (settlementDue accountId now periodMs last pending).periodIndex =
      periodIndexAt now periodMs := by
  unfold settlementDue
  simp only
  split_ifs <;> rfl

variable {E} {m : StorageManager F} {now stamp : Int} {pub : Hex} {priv : String}

theorem settleAccount_cases (E : StorageEnv F) (m : StorageManager F) (now stamp : Int)
    (pub : Hex) (priv : String) :
    (m.settleAccount E now stamp pub priv = (m, .skipped) ∧
        ¬ (IsDue E m now pub ∧ m.settlementReceipts.isEmpty = false)) ∨
      (m.settleAccount E now stamp pub priv =
          ({ m with ledger := (settleCall E m now stamp pub priv).1 },
            .called (settleCall E m now stamp pub priv).2) ∧
        IsDue E m now pub ∧ m.settlementReceipts.isEmpty = false) := by
  unfold settleAccount IsDue settleCall
  cases hprovider : m.provider? pub with
  | none => simp
  | some p =>
    simp only [Option.some.injEq, exists_eq_left', settlementDue_periodIndex]
    split
    · rename_i hserves
      simp [hserves]
    · rename_i hserves
      split
      · rename_i hreceipts
        simp [hreceipts]
      · rename_i hreceipts
        split
        · rename_i hdue
          refine .inl ⟨rfl, ?_⟩
          rintro ⟨⟨-, hyes⟩, -⟩
          simp [hyes] at hdue
        · rename_i hdue
          exact .inr ⟨rfl, ⟨by simpa using hserves, by simpa using hdue⟩,
            by simpa using hreceipts⟩

theorem settleCall_refuses (E : StorageEnv F) (m : StorageManager F) (now stamp : Int)
    (pub : Hex) (priv : String)
    (h : m.ledger.Payable E.primitives pub m.settlementReceipts →
      m.ledger.heldHead pub = none) :
    ∃ error, settleCall E m now stamp pub priv = (m.ledger, .refused error) :=
  EngineLedger.createStorageSettle_refuses E.primitives m.ledger pub priv _ _ _ _ stamp h

theorem settleAccount_quiet (stamp : Int) (priv : String)
    (h : DueWithCredit E m now pub → m.ledger.heldHead pub = none) :
    ∃ visit, m.settleAccount E now stamp pub priv = (m, visit) ∧
      (visit = .skipped ∨ ∃ error, visit = .called (.refused error)) := by
  rcases settleAccount_cases E m now stamp pub priv with ⟨hskip, -⟩ | ⟨hcall, hdue, -⟩
  · exact ⟨_, hskip, .inl rfl⟩
  · obtain ⟨error, hrefused⟩ := settleCall_refuses E m now stamp pub priv fun hpay =>
      h ⟨hdue, hpay⟩
    rw [hrefused] at hcall
    exact ⟨_, hcall, .inr ⟨error, rfl⟩⟩

theorem settleAccount_throws (hsign : SignsWithHex E.primitives) (hpriv : hexToBytes priv = none)
    (h : DueWithCredit E m now pub) (hhead : m.ledger.heldHead pub ≠ none) :
    (m.settleAccount E now stamp pub priv).2 = .called .thrown := by
  rcases settleAccount_cases E m now stamp pub priv with ⟨-, hskip⟩ | ⟨hcall, -⟩
  · exact absurd ⟨h.1, h.2.nonempty⟩ hskip
  · have hthrown : (settleCall E m now stamp pub priv).2 = .thrown :=
      EngineLedger.createStorageSettle_throws E.primitives m.ledger pub priv m.settlementReceipts
        _ _ _ stamp h.2 hhead fun message => hsign message priv hpriv
    rw [hcall, hthrown]

/-! ## The pass -/

theorem cleanLoop_iff (hsign : SignsWithHex E.primitives) (stamp : Hex → Int)
    {entries : List (Hex × String)} (hkeys : ∀ e ∈ entries, AppPrivate e.2) :
    CleanLoop E now stamp entries m ↔
      ∀ e ∈ entries, DueWithCredit E m now e.1 → m.ledger.heldHead e.1 = none := by
  induction entries with
  | nil => simp [CleanLoop]
  | cons e rest ih =>
    rw [List.forall_mem_cons, ← ih fun e he => hkeys e (List.mem_cons_of_mem _ he),
      cleanLoop_cons]
    constructor
    · rintro ⟨hreturns, houtcome, hrest⟩
      have hquiet : DueWithCredit E m now e.1 → m.ledger.heldHead e.1 = none := by
        intro hdue
        by_contra hhead
        exact hreturns (settleAccount_throws hsign (hkeys e List.mem_cons_self).not_hex hdue
          hhead)
      refine ⟨hquiet, ?_⟩
      obtain ⟨visit, hvisit, hkind⟩ :=
        settleAccount_quiet (stamp e.1) e.2 hquiet
      simp only [hvisit] at hrest
      rcases hkind with rfl | ⟨error, rfl⟩
      · exact hrest
      · exact hrest
    · rintro ⟨hquiet, hrest⟩
      obtain ⟨visit, hvisit, hkind⟩ :=
        settleAccount_quiet (stamp e.1) e.2 hquiet
      simp only [hvisit]
      rcases hkind with rfl | ⟨error, rfl⟩
      · exact ⟨by simp, .inr ⟨rfl, rfl⟩, hrest⟩
      · exact ⟨by simp, .inr ⟨rfl, rfl⟩, hrest⟩

/-- With keys as the app stores them, a pass is clean if and only if no local account is due
with a positive credit on a chain that the node holds. -/
theorem cleanPass_iff (E : StorageEnv F) (hsign : SignsWithHex E.primitives)
    (m : StorageManager F) (now : Int) (stamp : Hex → Int)
    (hkeys : ∀ pub priv, m.localKeys.get? pub = some priv → AppPrivate priv) :
    CleanPass E m now stamp ↔
      (m.started = true → ∀ pub, m.localKeys.has pub = true → DueWithCredit E m now pub →
        m.ledger.getAccountHead pub = none) := by
  have hentry : ∀ e ∈ m.localKeys.entries, m.localKeys.get? e.1 = some e.2 := fun e he =>
    (JsMap.get?_eq_some_iff m.localKeys e.1 e.2).mpr he
  have hhead (pub : Hex) : m.ledger.heldHead pub = none ↔ m.ledger.getAccountHead pub = none := by
    unfold EngineLedger.heldHead EngineLedger.getAccountHead EngineLedger.getAccountChain
    cases m.ledger.held.get? pub <;> simp
  refine forall_congr' fun _ => ?_
  rw [cleanLoop_iff hsign stamp fun e he => hkeys e.1 e.2 (hentry e he)]
  constructor
  · intro hall pub hlocal hdue
    obtain ⟨priv, hpriv⟩ := (JsMap.has_iff m.localKeys pub).mp hlocal
    exact (hhead pub).mp
      (hall (pub, priv) ((JsMap.get?_eq_some_iff m.localKeys pub priv).mp hpriv) hdue)
  · intro hall e he hdue
    have hlocal := (JsMap.has_iff m.localKeys e.1).mpr ⟨e.2, hentry e he⟩
    exact (hhead e.1).mpr (hall e.1 hlocal hdue)

/-! ## A provider with three readers -/

namespace Sample

/-- The sample signature, with a key that must be hex. -/
def hexPrimitives : Primitives Rat :=
  { Sample.primitives with
    sign := fun message key => (hexToBytes key).map fun _ => Sample.signature message key }

theorem signsWithHex_hexPrimitives : SignsWithHex hexPrimitives := by
  intro message priv hpriv
  simp [hexPrimitives, hpriv]

/-- Epochs of a second. -/
def env : StorageEnv Rat := ⟨hexPrimitives, fun _ => some "aa", 1000⟩

/-- A private key in the format of the app. -/
def appKey : String := btoa [0x7b, 0x22, 0x64, 0x22, 0x7d]

theorem appPrivate_appKey : AppPrivate appKey := ⟨[0x64, 0x22, 0x7d], rfl⟩

/-- The account `aa` is open and registered as a provider on the device `desk`. -/
def servedLedger : EngineLedger Rat :=
  Run.final (EngineLedger.step hexPrimitives Sample.config) (EngineLedger.new hexPrimitives)
    [.openAccount "aa" "aa" "nullifier" [] false 0,
      .createStorageRegister "aa" 10 "aa" (some "desk") 1]

/-- A receipt over 64 MiB. -/
def readBy (reader provider : Hex) : SignedReceipt Rat :=
  let receipt : ReadReceiptWire Rat := ⟨reader, provider, 1, 67108864, 1, 5, 2⟩
  ⟨receipt, Sample.signature (receiptPayload receipt) reader⟩

/-- A manager on `device` with the given keys that has not heard anything. -/
def idle (device : String) (localKeys : JsMap Hex String) : StorageManager Rat :=
  { started := true, running := true, storeStarted := true, deviceId := device, localKeys
    ledger := servedLedger, store := SmokeStore.new true, trackedCids := JsMap.empty
    fileIndex := JsMap.empty, inboundReceipts := ReceiptLedger.new
    pendingEnvelopes := JsMap.empty }

/-- Three readers have handed in their receipts. -/
def owed : StorageManager Rat :=
  ["bb", "cc", "dd"].foldl (fun m reader => m.acceptReadReceipt env (readBy reader "aa"))
    (idle "desk" (JsMap.empty.set "aa" appKey))

theorem owed_keys (pub : Hex) (priv : String) (h : owed.localKeys.get? pub = some priv) :
    AppPrivate priv := by
  have hkeys : owed.localKeys = JsMap.empty.set "aa" appKey := by rfl
  rw [hkeys, JsMap.get?_set] at h
  split at h
  · cases h
    exact appPrivate_appKey
  · cases h

theorem owed_due : DueWithCredit env owed 30000 "aa" := by
  refine ⟨?_, by decide +kernel, by decide +kernel, by decide +kernel⟩
  have hdue : ((owed.provider? "aa").any fun p =>
      !JsNumber.same p.capacityGB (JsNumber.ofInt 0) &&
        (settlementDue "aa" 30000 (settlementPeriodMs env.epochMs)
          (p.lastSettledPeriod.getD (JsNumber.ofInt (-1)))
          (owed.inboundReceipts.earnings "aa").payableBytes).due) = true := by decide +kernel
  rw [Option.any_eq_true] at hdue
  obtain ⟨p, hp, hdue⟩ := hdue
  simp only [Bool.and_eq_true, Bool.not_eq_true'] at hdue
  exact ⟨p, hp, hdue.1, hdue.2⟩

end Sample

/-- The pass of `owed` is not clean. -/
theorem cleanPass_iff_owed : SignsWithHex Sample.env.primitives ∧
    (∀ pub priv, Sample.owed.localKeys.get? pub = some priv → AppPrivate priv) ∧
    ¬ CleanPass Sample.env Sample.owed 30000 fun _ => 30000 := by
  refine ⟨Sample.signsWithHex_hexPrimitives, Sample.owed_keys, ?_⟩
  intro hclean
  have hnone := (cleanPass_iff Sample.env Sample.signsWithHex_hexPrimitives Sample.owed 30000
    (fun _ => 30000) Sample.owed_keys).mp hclean rfl "aa" (by decide +kernel) Sample.owed_due
  have hopen : (Sample.owed.ledger.getAccountHead "aa").isSome = true := by decide +kernel
  rw [hnone] at hopen
  cases hopen

/-- A provider that is owed for 192 MiB, with its key as the app stores it: the pass throws. -/
theorem settle_pass_throws :
    ¬ ∀ (E : StorageEnv Rat) (m : StorageManager Rat) (now : Int) (stamp : Hex → Int),
      SignsWithHex E.primitives →
      (∀ pub priv, m.localKeys.get? pub = some priv → AppPrivate priv) →
      CleanPass E m now stamp := by
  intro hall
  have hreturns := (hall Sample.env Sample.owed 30000 (fun _ => 30000)
    Sample.signsWithHex_hexPrimitives Sample.owed_keys).returns
  have hthrows : (settleIfDue Sample.env Sample.owed 30000 fun _ => 30000).2 = false := by
    decide +kernel
  rw [hthrows] at hreturns
  cases hreturns

end StorageManager

end NeuronWeb
