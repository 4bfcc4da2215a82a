/-
  Ledger/SettleAgreement: settlement verdicts agree on every node.

  What the validation of a storage block reads about its provider is the fold of the
  provider's own chain.  Other chains, discovery, telemetry, liveness and clocks never
  reach it, so two nodes that hold the same chain of a provider judge its next storage
  block alike.
-/
import NeuronWeb.Ledger.Node
import NeuronWeb.Ledger.Outcome
import NeuronWeb.Ledger.Sample

set_option autoImplicit false

namespace NeuronWeb

variable {F : Type}

namespace ProviderLedger

/-! ## What validation reads -/

/-- Two provider ledgers that validation cannot tell apart for `pub`. -/
structure SettlesAlike (pub : Hex) (A B : ProviderLedger F) : Prop where
  capacity : (A.providers.get? pub).map StorageProviderState.capacityGB =
    (B.providers.get? pub).map StorageProviderState.capacityGB
  period : A.lastSettledPeriod.get? pub = B.lastSettledPeriod.get? pub
  baselines : A.settledFor pub = B.settledFor pub

theorem SettlesAlike.refl (pub : Hex) (A : ProviderLedger F) : SettlesAlike pub A A :=
  ⟨rfl, rfl, rfl⟩

theorem SettlesAlike.symm {pub : Hex} {A B : ProviderLedger F} (h : SettlesAlike pub A B) :
    SettlesAlike pub B A :=
  ⟨h.capacity.symm, h.period.symm, h.baselines.symm⟩

theorem SettlesAlike.trans {pub : Hex} {A B C : ProviderLedger F} (h : SettlesAlike pub A B)
    (h' : SettlesAlike pub B C) : SettlesAlike pub A C :=
  ⟨h.capacity.trans h'.capacity, h.period.trans h'.period, h.baselines.trans h'.baselines⟩

theorem settlesAlike_setDiscovered (pub : Hex) (A : ProviderLedger F)
    (records : List (StorageProviderState F)) : SettlesAlike pub (A.setDiscovered records) A :=
  ⟨rfl, rfl, rfl⟩

theorem settlesAlike_writeTelemetry (pub provider : Hex) (A : ProviderLedger F)
    (w : TelemetryWrite F) : SettlesAlike pub (A.writeTelemetry provider w) A := by
  unfold writeTelemetry
  cases hget : A.providers.get? provider with
  | none => exact SettlesAlike.refl pub A
  | some p =>
    refine ⟨?_, rfl, rfl⟩
    rw [JsMap.get?_set]
    split
    · rename_i hpub
      rw [← hpub, hget]
      simp
    · rfl

variable [JsNumber F] {P : Primitives F} {A B : ProviderLedger F}

theorem SettlesAlike.isRegistered {pub : Hex} (h : SettlesAlike pub A B) :
    A.isRegistered pub = B.isRegistered pub := by
  have hmap : ∀ L : ProviderLedger F, L.isRegistered pub =
      (((L.providers.get? pub).map StorageProviderState.capacityGB).map fun cap =>
        !JsNumber.le cap (JsNumber.ofInt 0)).getD false := by
    intro L
    unfold ProviderLedger.isRegistered
    cases L.providers.get? pub <;> rfl
  rw [hmap A, hmap B, h.capacity]

theorem SettlesAlike.settlementCredit {pub : Hex} (h : SettlesAlike pub A B)
    (storage : Option (StoragePayload F)) :
    settlementCredit P A pub storage = settlementCredit P B pub storage := by
  unfold ProviderLedger.settlementCredit
  rw [h.baselines]

theorem SettlesAlike.validate {block : BlockContent F} (h : SettlesAlike block.accountId A B) :
    validate P A block = validate P B block := by
  unfold ProviderLedger.validate validateSettle
  rw [h.isRegistered, h.period, h.settlementCredit]

/-! ## What application writes -/

theorem get?_providers_applyRegister (A : ProviderLedger F) (block : BlockContent F) (pub : Hex) :
    ((A.applyRegister block).providers.get? pub).map StorageProviderState.capacityGB =
      if block.accountId = pub then
        some ((block.storage.bind StoragePayload.capacityGB).getD (JsNumber.ofInt 0))
      else (A.providers.get? pub).map StorageProviderState.capacityGB := by
  unfold applyRegister pushCapacity
  simp only [JsMap.get?_set]
  split
  · rfl
  · rfl

theorem get?_providers_applySettle (A : ProviderLedger F) (block : BlockContent F) (pub : Hex) :
    ((applySettle P A block).providers.get? pub).map StorageProviderState.capacityGB =
      (A.providers.get? pub).map StorageProviderState.capacityGB := by
  unfold applySettle
  split
  · simp only
    split
    · rename_i p hget
      rw [JsMap.get?_set]
      split
      · rename_i hpub
        rw [← hpub, hget]
        rfl
      · rfl
    · rfl
  · rfl

theorem settlesAlike_apply_other {pub : Hex} {block : BlockContent F}
    (hne : block.accountId ≠ pub) : SettlesAlike pub (apply P A block) A := by
  unfold apply
  split
  · refine ⟨?_, rfl, rfl⟩
    rw [get?_providers_applyRegister, if_neg hne]
  · refine ⟨?_, rfl, rfl⟩
    unfold applyDeregister pushCapacity
    simp only [JsMap.get?_delete, hne, if_false]
  · refine ⟨get?_providers_applySettle A block pub, ?_, ?_⟩
    · unfold applySettle
      split
      · simp only [JsMap.get?_set, hne, if_false]
      · rfl
    · unfold applySettle settledFor
      split
      · simp only [JsMap.get?_set, hne, if_false]
      · rfl
  · exact SettlesAlike.refl pub A

theorem SettlesAlike.apply {block : BlockContent F} (h : SettlesAlike block.accountId A B) :
    SettlesAlike block.accountId (apply P A block) (apply P B block) := by
  unfold ProviderLedger.apply
  split
  · refine ⟨?_, h.period, h.baselines⟩
    rw [get?_providers_applyRegister, get?_providers_applyRegister, if_pos rfl, if_pos rfl]
  · refine ⟨?_, h.period, h.baselines⟩
    unfold applyDeregister pushCapacity
    simp only [JsMap.get?_delete, if_true]
  · refine ⟨?_, ?_, ?_⟩
    · rw [get?_providers_applySettle, get?_providers_applySettle, h.capacity]
    · unfold applySettle
      split
      · simp only [JsMap.get?_set, if_true]
      · exact h.period
    · have hbaselines := h.baselines
      unfold applySettle settledFor at *
      split
      · simp only [JsMap.get?_set, if_true, Option.getD_some, hbaselines]
      · exact hbaselines
  · exact h

/-- The provider ledger of a node that has seen one chain and nothing else. -/
def replayed (P : Primitives F) (chain : List (Block F)) : ProviderLedger F :=
  chain.foldl (fun L b => apply P L b.toBlockContent) new

theorem replayed_append (P : Primitives F) (chain : List (Block F)) (b : Block F) :
    replayed P (chain ++ [b]) = apply P (replayed P chain) b.toBlockContent := by
  simp [replayed]

end ProviderLedger

/-! ## The provider records of a ledger -/

namespace EngineLedger

open ProviderLedger

/-- A call appends one block and folds it into the provider records, or moves no chain and
leaves the records that validation reads alone. -/
inductive RecordsOutcome [JsNumber F] (P : Primitives F) (L L' : EngineLedger F) : Prop
  | kept (chain : ∀ x, L'.getAccountChain x = L.getAccountChain x)
      (records : ∀ pub, SettlesAlike pub L'.providerLedger L.providerLedger)
  | appended (b : Block F)
      (chain : ∀ x, L'.getAccountChain x =
        if b.accountId = x then L.getAccountChain x ++ [b] else L.getAccountChain x)
      (records : L'.providerLedger = ProviderLedger.apply P L.providerLedger b.toBlockContent)

section Outcomes

variable [JsNumber F] {P : Primitives F} {cfg : LedgerConfig} {L : EngineLedger F}

theorem recordsOutcome_of_eq {L' : EngineLedger F} (hheld : L'.held = L.held)
    (hrecords : L'.providerLedger = L.providerLedger) : RecordsOutcome P L L' :=
  .kept (getAccountChain_congr hheld) fun pub => hrecords ▸ SettlesAlike.refl pub _

/-- The block types that `apply` folds in. -/
def isStorage : BlockType → Bool
  | .storageRegister | .storageDeregister | .storageSettle => true
  | _ => false

theorem apply_of_type {b : BlockContent F} {A : ProviderLedger F} {t : BlockType}
    (htype : b.type = t) (hplain : isStorage t = false) : ProviderLedger.apply P A b = A := by
  unfold ProviderLedger.apply
  rw [htype]
  cases t
  case storageRegister => cases hplain
  case storageDeregister => cases hplain
  case storageSettle => cases hplain
  all_goals rfl

theorem providerLedger_applyBlock (L : EngineLedger F) (b : Block F) :
    (applyBlock P L b).providerLedger =
      ProviderLedger.apply P L.providerLedger b.toBlockContent := by
  unfold applyBlock
  cases htype : b.type
  case send =>
    obtain ⟨_, h, -⟩ := applySend_eq L b
    simp [h, ProviderLedger.apply, htype]
  case receive =>
    obtain ⟨_, _, h, -⟩ := applyReceive_eq L b
    simp [h, ProviderLedger.apply, htype]
  case update =>
    obtain ⟨_, _, h⟩ := applyUpdate_eq L b
    simp [h, ProviderLedger.apply, htype]
  case nftMint =>
    obtain ⟨_, _, _, h⟩ := applyNftMint_eq L b
    simp [h, ProviderLedger.apply, htype]
  case nftSend =>
    obtain ⟨_, _, _, h, -⟩ := applyNftSend_eq L b
    simp [h, ProviderLedger.apply, htype]
  case nftReceive =>
    obtain ⟨_, _, _, _, h, -⟩ := applyNftReceive_eq L b
    simp [h, ProviderLedger.apply, htype]
  case nftBurn =>
    obtain ⟨_, _, _, h⟩ := applyNftBurn_eq L b
    simp [h, ProviderLedger.apply, htype]
  all_goals simp [ProviderLedger.apply, applyStorage, htype]

theorem Draft.providerLedger {pub priv : Hex} {head b : Block F} {now : Int} {c : Call F}
    {content : BlockContent F} {effect : Effect F}
    (d : Draft P L pub priv head now c content effect) (hb : b.toBlockContent = content)
    (L' : EngineLedger F) :
    (effect L' b).providerLedger = ProviderLedger.apply P L'.providerLedger b.toBlockContent := by
  have hplain : ∀ t, content.type = t → isStorage t = false →
      ProviderLedger.apply P L'.providerLedger b.toBlockContent = L'.providerLedger := by
    intro t htype hplain
    rw [hb]
    exact apply_of_type htype hplain
  cases d
  case send => exact (hplain .send rfl rfl).symm
  case receive => exact (hplain .receive rfl rfl).symm
  case update updates _ _ =>
    obtain ⟨_, _, h⟩ := applyAccountUpdate_eq L' pub updates
    change (L'.applyAccountUpdate pub updates).providerLedger = _
    rw [h, hplain .update rfl rfl]
  case nftMint =>
    obtain ⟨_, _, _, h⟩ := applyNftMint_eq L' b
    rw [h, hplain .nftMint rfl rfl]
  case nftSend =>
    obtain ⟨_, _, _, h, -⟩ := applyNftSend_eq L' b
    rw [h, hplain .nftSend rfl rfl]
  case nftReceive =>
    obtain ⟨_, _, _, _, h, -⟩ := applyNftReceive_eq L' b
    rw [h, hplain .nftReceive rfl rfl]
  case nftBurn =>
    obtain ⟨_, _, _, h⟩ := applyNftBurn_eq L' b
    rw [h, hplain .nftBurn rfl rfl]
  case storageRegister => rfl
  case storageDeregister => rfl
  case storageSettle => rfl

theorem CreateOutcome.recordsOutcome {c : Call F} {pub priv : Hex} {now : Int}
    {r : EngineLedger F × CreateResult F} (outcome : CreateOutcome P L c pub priv now r) :
    RecordsOutcome P L r.1 := by
  cases outcome with
  | refused error => exact recordsOutcome_of_eq rfl rfl
  | thrown => exact recordsOutcome_of_eq rfl rfl
  | drafted h head content effect stored last draft =>
    obtain ⟨haccount, -⟩ := draft.header
    have hchain : L.getAccountChain content.accountId = h.chain := by
      rw [haccount, getAccountChain_of_held stored]
    rcases appendOwn_cases (P := P) (L := L) h content priv effect with
      ⟨acc, heq⟩ | ⟨acc, block, hcreate, heq⟩
    · rw [heq]
      refine .kept (fun x => ?_) fun pub => SettlesAlike.refl pub _
      rw [getAccountChain_hold]
      split
      · rename_i hx
        rw [← hx, hchain]
      · rfl
    · obtain ⟨hcontent, -⟩ := createBlock_eq_some hcreate
      rw [heq]
      have hsame := draft.sameChains
        ((L.hold content.accountId ⟨h.chain ++ [block], acc⟩).indexBlock block) block
      refine .appended block (fun x => ?_) (draft.providerLedger hcontent _)
      rw [getAccountChain_congr hsame.held]
      change (L.hold content.accountId ⟨h.chain ++ [block], acc⟩).getAccountChain x = _
      rw [getAccountChain_hold, hcontent]
      split
      · rename_i hx
        rw [← hx, hchain]
      · rfl

theorem addBlock_recordsOutcome (L : EngineLedger F) (block : Block F) (now : Int) :
    RecordsOutcome P L (addBlock P L block now).1 := by
  have outcome := addBlock_outcome P L block now
  generalize addBlock P L block now = result at outcome
  cases outcome with
  | unchanged r => exact recordsOutcome_of_eq rfl rfl
  | emptied r authentic opens refused =>
    refine .kept (fun x => ?_) fun pub => SettlesAlike.refl pub _
    rw [getAccountChain_hold]
    split
    · rename_i hx
      rw [← hx, getAccountChain, opens.fresh]
      rfl
    · rfl
  | forked h existing error authentic forks =>
    refine .kept (flagFork_freezes L existing block).chain fun pub => ?_
    rw [(flagFork_sameHumans L existing block).providerLedger]
    exact SettlesAlike.refl pub _
  | opened acc authentic opens root =>
    refine .appended block (fun x => ?_) (providerLedger_applyBlock _ block)
    rw [getAccountChain_appendForeign, getAccountChain_hold]
    split
    · rename_i hx
      rw [← hx, getAccountChain, opens.fresh]
      rfl
    · rfl
  | extended h head acc authentic links checked root =>
    refine .appended block (fun x => ?_) (providerLedger_applyBlock _ block)
    rw [getAccountChain_appendForeign]
    split
    · rename_i hx
      rw [← hx, getAccountChain_of_held links.stored]
    · rfl

theorem openAccount_recordsOutcome (L : EngineLedger F) (pub priv nullifier : Hex)
    (attestations : List TypedAttestation) (bond : Bool) (now : Int) :
    RecordsOutcome P L (openAccount P cfg L pub priv nullifier attestations bond now).1 := by
  have outcome := openAccount_outcome P cfg L pub priv nullifier attestations bond now
  generalize openAccount P cfg L pub priv nullifier attestations bond now = result at outcome
  cases outcome with
  | refused error => exact recordsOutcome_of_eq rfl rfl
  | thrown identity => exact recordsOutcome_of_eq rfl rfl
  | opened identity shard acc block admitted created =>
    obtain ⟨hcontent, -⟩ := createBlock_eq_some created
    have hnone : L.getAccountChain pub = [] := by simp [getAccountChain, admitted.fresh]
    have happly : ProviderLedger.apply P L.providerLedger block.toBlockContent =
        L.providerLedger := by
      rw [hcontent]
      exact apply_of_type (t := .open) rfl rfl
    let opened := ({ L with identity }.hold pub ⟨[block], acc⟩).indexBlock block
    have hchain : ∀ x, opened.getAccountChain x =
        if block.accountId = x then L.getAccountChain x ++ [block] else L.getAccountChain x := by
      intro x
      change ({ L with identity }.hold pub ⟨[block], acc⟩).getAccountChain x = _
      rw [getAccountChain_hold, hcontent]
      split
      · rename_i hx
        rw [← hx, hnone]
        rfl
      · rfl
    cases bond with
    | false => exact .appended block hchain happly.symm
    | true =>
      obtain ⟨registry, hbond, -⟩ := bondStake_eq opened pub (some MINT)
      simp only [if_true]
      refine .appended block (fun x => ?_) ?_
      · rw [hbond]
        exact hchain x
      · rw [hbond]
        exact happly.symm

end Outcomes

/-- Resetting and purging are the calls that take a chain back. -/
def Call.keepsChains : Call F → Bool
  | .reset => false
  | .purgeAccount _ => false
  | _ => true

theorem step_recordsOutcome [JsNumber F] (P : Primitives F) (cfg : LedgerConfig)
    (L : EngineLedger F) {c : Call F} (hc : c.keepsChains = true) :
    RecordsOutcome P L (step P cfg L c) := by
  cases hauthor : c.author with
  | some author =>
    obtain ⟨pub, priv, now⟩ := author
    obtain ⟨r, hstep, outcome⟩ := step_of_author P cfg L hauthor
    rw [hstep]
    exact outcome.recordsOutcome
  | none =>
    cases hclerical : c.clerical with
    | true =>
      have hsame := step_clerical P cfg L hclerical
      exact recordsOutcome_of_eq hsame.held hsame.providerLedger
    | false =>
      cases c
      case addBlock block now => exact addBlock_recordsOutcome L block now
      case openAccount => exact openAccount_recordsOutcome L _ _ _ _ _ _
      case applyEvidence ev =>
        refine .kept (applyEvidence_freezes P L ev).chain fun pub => ?_
        simp only [step, (applyEvidence_sameHumans P L ev).providerLedger]
        exact SettlesAlike.refl pub _
      case applyEvidenceFromBlocks a b =>
        refine .kept (applyEvidenceFromBlocks_freezes P L a b).chain fun pub => ?_
        simp only [step, (applyEvidenceFromBlocks_sameHumans P L a b).providerLedger]
        exact SettlesAlike.refl pub _
      case bondStake pub amount =>
        obtain ⟨_, h, -⟩ := bondStake_eq L pub amount
        exact recordsOutcome_of_eq (by simp [step, h]) (by simp [step, h])
      case applyCommitteeVote vote => exact recordsOutcome_of_eq rfl rfl
      case advanceEpoch betas active =>
        obtain ⟨_, _, _, _, _, h⟩ := advanceEpoch_eq P L betas active
        exact recordsOutcome_of_eq (by simp [step, h]) (by simp [step, h])
      case setDiscoveredProviders records =>
        exact .kept (fun _ => rfl) fun pub => settlesAlike_setDiscovered pub _ records
      case purgeAccount => cases hc
      case reset => cases hc
      all_goals simp [Call.author, Call.clerical] at hauthor hclerical

end EngineLedger

/-! ## Runs of a node -/

/-- The operations of a node that never resets and never purges. -/
def NodeCall.keepsChains : NodeCall F → Bool
  | .call c => c.keepsChains
  | _ => true

namespace NodeLedger

open ProviderLedger EngineLedger

variable [JsNumber F] {P : Primitives F}

/-- What validation reads of any account is the fold of that account's chain. -/
def FollowsChains (P : Primitives F) (n : NodeLedger F) : Prop :=
  ∀ pub, SettlesAlike pub n.ledger.providerLedger
    (replayed P (n.ledger.getAccountChain pub))

theorem followsChains_new : FollowsChains P (new P) := fun pub => SettlesAlike.refl pub _

theorem FollowsChains.kept {n n' : NodeLedger F} (h : FollowsChains P n)
    (hchain : ∀ x, n'.ledger.getAccountChain x = n.ledger.getAccountChain x)
    (hrecords : ∀ pub, SettlesAlike pub n'.ledger.providerLedger n.ledger.providerLedger) :
    FollowsChains P n' := by
  intro pub
  rw [hchain]
  exact (hrecords pub).trans (h pub)

/-- The step lemma: an appended block is folded into its own account's records, and into
nobody else's. -/
theorem FollowsChains.appended {n n' : NodeLedger F} (h : FollowsChains P n) {b : Block F}
    (hchain : ∀ x, n'.ledger.getAccountChain x =
      if b.accountId = x then n.ledger.getAccountChain x ++ [b]
      else n.ledger.getAccountChain x)
    (hrecords : n'.ledger.providerLedger =
      ProviderLedger.apply P n.ledger.providerLedger b.toBlockContent) : FollowsChains P n' := by
  intro pub
  rw [hchain, hrecords]
  split
  · rename_i hpub
    subst hpub
    rw [replayed_append]
    exact (h b.accountId).apply
  · rename_i hne
    exact (settlesAlike_apply_other hne).trans (h pub)

theorem FollowsChains.step {cfg : LedgerConfig} {maxOfflineMs : Int} {n : NodeLedger F}
    (h : FollowsChains P n) {c : NodeCall F} (hc : c.keepsChains = true) :
    FollowsChains P (step P cfg maxOfflineMs n c) := by
  cases c with
  | call c =>
    cases step_recordsOutcome P cfg n.ledger hc with
    | kept chain records => exact h.kept chain records
    | appended b chain records => exact h.appended chain records
  | observe provider ok now => exact h
  | telemetry pub w =>
    exact h.kept (fun _ => rfl) fun x => settlesAlike_writeTelemetry x pub _ w
  | isProviderLive pub now => exact h
  | liveStorageProviders now => exact h
  | settledFor pub => exact h

theorem followsChains_final {cfg : LedgerConfig} {maxOfflineMs : Int}
    {history : List (NodeCall F)} (hhistory : ∀ c ∈ history, c.keepsChains = true) :
    FollowsChains P (Run.final (step P cfg maxOfflineMs) (new P) history) :=
  Run.invariant_final (C := fun _ c => c.keepsChains = true) (fun _ _ hn hc => hn.step hc)
    followsChains_new (Run.stepsMeet_of_mem (fun c hc _ => hhistory c hc) _)

/-- Two nodes that hold the same chain of `pub`, after any two histories that neither
reset nor purge, give the same verdict and the same credit for every next block of it. -/
theorem settlement_verdicts_agree (cfg cfg' : LedgerConfig) (maxOfflineMs maxOfflineMs' : Int)
    (history history' : List (NodeCall F)) (hkeeps : ∀ c ∈ history, c.keepsChains = true)
    (hkeeps' : ∀ c ∈ history', c.keepsChains = true) (pub : Hex)
    (hsame : (Run.final (step P cfg maxOfflineMs) (new P) history).ledger.getAccountChain pub =
      (Run.final (step P cfg' maxOfflineMs') (new P) history').ledger.getAccountChain pub)
    (block : BlockContent F) (hblock : block.accountId = pub) :
    let A := (Run.final (step P cfg maxOfflineMs) (new P) history).ledger.providerLedger
    let B := (Run.final (step P cfg' maxOfflineMs') (new P) history').ledger.providerLedger
    validate P A block = validate P B block ∧
      settlementCredit P A block.accountId block.storage =
        settlementCredit P B block.accountId block.storage := by
  have hA : FollowsChains P (Run.final (step P cfg maxOfflineMs) (new P) history) :=
    followsChains_final hkeeps
  have hB : FollowsChains P (Run.final (step P cfg' maxOfflineMs') (new P) history') :=
    followsChains_final hkeeps'
  have hB := hB pub
  rw [← hsame] at hB
  have halike := (hA pub).trans hB.symm
  subst hblock
  exact ⟨halike.validate, halike.settlementCredit block.storage⟩

/-- Alice opens her account and offers ten gigabytes. -/
def quietHistory : List (NodeCall Rat) :=
  [.call (.openAccount "alice" "alice" "nullifier" [] false 0),
    .call (.createStorageRegister "alice" 10 "alice" none 1)]

/-- The same, on a node that also holds Bob's chain and has watched Alice fail. -/
def busyHistory : List (NodeCall Rat) :=
  [.call (.openAccount "bob" "bob" "other nullifier" [] false 0),
    .call (.openAccount "alice" "alice" "nullifier" [] false 0), .observe "alice" false 7,
    .call (.createStorageRegister "alice" 10 "alice" none 1),
    .call (.createStorageRegister "bob" 20 "bob" none 8), .call (.setDiscoveredProviders []),
    .telemetry "alice" (.storedBytes 5), .isProviderLive "alice" 9]

/-- Whether Alice may leave the storage ledger, both nodes judge alike. -/
theorem settlement_verdicts_agree_alice :
    let block : BlockContent Rat :=
      EngineLedger.nextContent (Sample.continuing (EngineLedger.new Sample.primitives)
        (Sample.header (EngineLedger.new Sample.primitives) "alice")) "alice" .storageDeregister 9 0
    let A := (Run.final (step Sample.primitives Sample.config 5) (new Sample.primitives)
      quietHistory).ledger.providerLedger
    let B := (Run.final (step Sample.primitives Sample.config 7) (new Sample.primitives)
      busyHistory).ledger.providerLedger
    validate Sample.primitives A block = validate Sample.primitives B block ∧
      settlementCredit Sample.primitives A block.accountId block.storage =
        settlementCredit Sample.primitives B block.accountId block.storage :=
  settlement_verdicts_agree Sample.config Sample.config 5 7 quietHistory busyHistory
    (by decide) (by decide) "alice" (by decide +kernel) _ rfl

end NodeLedger

end NeuronWeb
