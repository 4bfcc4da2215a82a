/-
  Ledger/Additions: what one call adds to the chains, with all that a later delivery of the
  same block will be checked for.

  A call appends one block, forgets one account, forgets everything, or adds to no chain
  (`Fate`).
-/
import NeuronWeb.Content.ProviderResume
import NeuronWeb.Ledger.BalanceRules
import NeuronWeb.Ledger.SettleAgreement
import NeuronWeb.Ledger.TokenMarks

set_option autoImplicit false

namespace NeuronWeb.EngineLedger

variable {F : Type}

/-- The part of the rule of a block that only the block before it decides. -/
def Shaped [JsNumber F] (head b : Block F) : Prop :=
  match b.type with
  | .open => True
  | .send => ∃ amount, b.amount = some amount ∧ b.balance = head.balance - amount ∧
      0 ≤ b.balance
  | .receive | .storageSettle => ∃ amount, b.amount = some amount ∧
      b.balance = head.balance + amount
  | .storageRegister => b.balance = head.balance ∧
      ∃ cap, b.storage.bind StoragePayload.capacityGB = some cap ∧
        JsNumber.isFinite cap = true ∧ JsNumber.le cap (JsNumber.ofInt 0) = false
  | _ => b.balance = head.balance

/-- The call appends `b` behind the chain of its account. -/
structure Gains [JsNumber F] (P : Primitives F) (L L' : EngineLedger F) (b : Block F) :
    Prop where
  chain : ∀ x, L'.getAccountChain x =
    if b.accountId = x then L.getAccountChain x ++ [b] else L.getAccountChain x
  opens : L.getAccountChain b.accountId = [] → b.balance = MINT
  shaped : ∀ head, (L.getAccountChain b.accountId).getLast? = some head →
    b.previousHash = head.hash ∧ Shaped head b
  registered : b.type = .storageDeregister → L.providerLedger.isRegistered b.accountId = true
  providers : L'.providerLedger = ProviderLedger.apply P L.providerLedger b.toBlockContent
  marked : Marked L' b
  marks : KeepsMarks L L'

/-- The outcomes of a call. -/
inductive Fate [JsNumber F] (P : Primitives F) (L L' : EngineLedger F) : Prop
  | kept (chain : ∀ x, L'.getAccountChain x = L.getAccountChain x)
      (profiles : ∀ x, ProviderLedger.SameProfile x L'.providerLedger L.providerLedger)
      (marks : KeepsMarks L L')
  | gained (b : Block F) (gains : Gains P L L' b)
  | purged (pub : Hex) (h : L' = L.purgeAccount pub)
  | reset (h : L' = L.reset P)

variable [JsNumber F] {P : Primitives F} {cfg : LedgerConfig} {L : EngineLedger F}

theorem fate_of_eq {L' : EngineLedger F} (hheld : L'.held = L.held)
    (hproviders : L'.providerLedger = L.providerLedger) (hmarks : KeepsMarks L L') :
    Fate P L L' :=
  .kept (getAccountChain_congr hheld) (fun x => hproviders ▸ .refl x _) hmarks

/-! ## Own blocks -/

theorem Draft.shaped {pub priv : Hex} {head b : Block F} {now : Int} {c : Call F}
    {content : BlockContent F} {effect : Effect F}
    (d : Draft P L pub priv head now c content effect) (hb : b.toBlockContent = content)
    (hbonded : 0 ≤ L.validatorRegistry.bondedOf pub) :
    Shaped head b := by
  unfold Shaped
  cases d
  case send recipientPub amount amt _ _ _ _ covered =>
    rw [hb]
    exact ⟨amt, rfl, rfl, by simp only [nextContent]; omega⟩
  case receive unclaimed amt _ _ _ =>
    rw [hb]
    exact ⟨amt, rfl, rfl⟩
  case storageRegister capacityGB deviceId _ finite positive =>
    rw [hb]
    exact ⟨rfl, capacityGB, rfl, finite, positive⟩
  case storageSettle payable amount _ _ _ _ _ =>
    rw [hb]
    exact ⟨amount, rfl, rfl⟩
  all_goals
    rw [hb]
    rfl

theorem Draft.registered {pub priv : Hex} {head b : Block F} {now : Int} {c : Call F}
    {content : BlockContent F} {effect : Effect F}
    (d : Draft P L pub priv head now c content effect) (hb : b.toBlockContent = content)
    (htype : b.type = .storageDeregister) :
    L.providerLedger.isRegistered b.accountId = true := by
  rw [hb] at htype ⊢
  cases d
  case storageDeregister storage registered => exact registered
  all_goals cases htype

theorem CreateOutcome.fate {c : Call F} {pub priv : Hex} {now : Int}
    {r : EngineLedger F × CreateResult F} (outcome : CreateOutcome P L c pub priv now r)
    (hbonded : 0 ≤ L.validatorRegistry.bondedOf pub) : Fate P L r.1 := by
  cases outcome with
  | refused error => exact fate_of_eq rfl rfl (.refl L)
  | thrown => exact fate_of_eq rfl rfl (.refl L)
  | drafted h head content effect stored last draft =>
    obtain ⟨haccount, -, hprevious, -⟩ := draft.header
    have hchain : L.getAccountChain content.accountId = h.chain := by
      rw [haccount, getAccountChain_of_held stored]
    rcases appendOwn_cases (P := P) (L := L) h content priv effect with
      ⟨acc, heq⟩ | ⟨acc, block, hcreate, heq⟩
    · rw [heq]
      refine .kept (fun x => ?_) (fun x => .refl x _) (keepsMarks_of_eq rfl rfl rfl rfl rfl)
      rw [getAccountChain_hold]
      split
      · next hx => rw [← hx, hchain]
      · rfl
    · obtain ⟨rfl, -⟩ := createBlock_eq_some hcreate
      rw [heq]
      have hsame := draft.sameChains
        ((L.hold block.accountId ⟨h.chain ++ [block], acc⟩).indexBlock block) block
      obtain ⟨hkeeps, hmarked⟩ := draft.marks (b := block)
        ((L.hold block.accountId ⟨h.chain ++ [block], acc⟩).indexBlock block) rfl
      refine .gained block ⟨fun x => ?_, fun hempty => ?_, fun head' hhead => ?_,
        draft.registered rfl, draft.providerLedger rfl _, hmarked,
        ((keepsMarks_hold L _ _).trans (keepsMarks_indexBlock _ _)).trans hkeeps⟩
      · rw [getAccountChain_congr hsame.held]
        change (L.hold block.accountId ⟨h.chain ++ [block], acc⟩).getAccountChain x = _
        rw [getAccountChain_hold]
        split
        · next hx => rw [← hx, hchain]
        · rfl
      · rw [hchain] at hempty
        rw [hempty] at last
        cases last
      · rw [hchain, last] at hhead
        obtain rfl := Option.some.inj hhead
        exact ⟨hprevious, draft.shaped rfl hbonded⟩

theorem openAccount_fate (L : EngineLedger F) (pub priv nullifier : Hex)
    (attestations : List TypedAttestation) (bond : Bool) (now : Int) :
    Fate P L (openAccount P cfg L pub priv nullifier attestations bond now).1 := by
  have outcome := openAccount_outcome P cfg L pub priv nullifier attestations bond now
  generalize openAccount P cfg L pub priv nullifier attestations bond now = result at outcome
  cases outcome with
  | refused error => exact fate_of_eq rfl rfl (.refl L)
  | thrown identity => exact fate_of_eq rfl rfl (keepsMarks_of_eq rfl rfl rfl rfl rfl)
  | opened identity shard acc block admitted created =>
    obtain ⟨hcontent, -⟩ := createBlock_eq_some created
    have haccount : block.accountId = pub := by rw [hcontent]
    have htype : block.type = .open := by rw [hcontent]
    have hnone : L.getAccountChain pub = [] := by simp [getAccountChain, admitted.fresh]
    -- bonding moves the validator registry only
    have hbond : ∀ L₀ : EngineLedger F, ∃ validatorRegistry,
        (if bond then (L₀.bondStake pub (some MINT)).1 else L₀) =
          { L₀ with validatorRegistry } := by
      intro L₀
      obtain ⟨registry, heq, -⟩ := bondStake_eq L₀ pub (some MINT)
      cases bond
      · exact ⟨_, rfl⟩
      · exact ⟨registry, heq⟩
    obtain ⟨registry, heq⟩ :=
      hbond (({ L with identity }.hold pub ⟨[block], acc⟩).indexBlock block)
    refine .gained block ⟨fun x => ?_, fun _ => by rw [hcontent], fun head hhead => ?_,
      fun hother => ?_, ?_, marked_of_said (by simp [said, htype]), ?_⟩
    · simp only [heq]
      change ({ L with identity }.hold pub ⟨[block], acc⟩).getAccountChain x = _
      rw [getAccountChain_hold, haccount]
      split
      · next hx =>
          rw [← hx, hnone]
          rfl
      · rfl
    · rw [haccount, hnone] at hhead
      cases hhead
    · rw [htype] at hother
      cases hother
    · simp only [heq]
      exact (apply_of_type htype rfl).symm
    · simp only [heq]
      exact keepsMarks_of_eq rfl rfl rfl rfl rfl

/-! ## Foreign blocks -/

theorem shaped_of_checkBlock {head b : Block F} (h : checkBlock P L head b = none) :
    Shaped head b := by
  unfold Shaped
  unfold checkBlock at h
  cases htype : b.type
  all_goals simp only [htype] at h ⊢
  case send =>
    obtain ⟨amount, hamount, -, hbalance, hcovered⟩ := checkSend_eq_none h
    exact ⟨amount, hamount, by omega, hcovered⟩
  case receive =>
    obtain ⟨⟨amount, hamount, -, hbalance⟩, -⟩ := checkReceive_eq_none h
    exact ⟨amount, hamount, by omega⟩
  case storageSettle =>
    obtain ⟨amount, hamount, -, hbalance⟩ := checkStorageSettle_eq_none h
    exact ⟨amount, hamount, by omega⟩
  case storageRegister =>
    unfold checkStorage at h
    split at h
    · cases h
    · next hbalance =>
        refine ⟨by simpa using hbalance, ?_⟩
        simp only [ProviderLedger.validate, htype] at h
        split at h
        · cases h
        · next cap hcap =>
            refine ⟨cap, hcap, ?_⟩
            split at h
            · cases h
            · next hvalid => simpa using hvalid
  all_goals
    have := balance_eq_of_first_check h
    omega

theorem registered_of_checkBlock {head b : Block F} (h : checkBlock P L head b = none)
    (htype : b.type = .storageDeregister) :
    L.providerLedger.isRegistered b.accountId = true := by
  simp only [checkBlock, htype, checkStorage, ProviderLedger.validate] at h
  split at h
  · cases h
  · split at h
    · next hregistered => exact hregistered
    · cases h

theorem addBlock_fate (L : EngineLedger F) (block : Block F) (now : Int) :
    Fate P L (addBlock P L block now).1 := by
  have outcome := addBlock_outcome P L block now
  generalize addBlock P L block now = result at outcome
  cases outcome with
  | unchanged r => exact fate_of_eq rfl rfl (.refl L)
  | emptied r authentic opens refused =>
    refine .kept (fun x => ?_) (fun x => .refl x _) (keepsMarks_of_eq rfl rfl rfl rfl rfl)
    rw [getAccountChain_hold]
    split
    · next hx =>
        rw [← hx, getAccountChain, opens.fresh]
        rfl
    · rfl
  | forked h existing error authentic forks =>
    refine .kept (flagFork_freezes L existing block).chain (fun x => ?_) ?_
    · rw [(flagFork_sameHumans L existing block).providerLedger]
      exact .refl x _
    · unfold flagFork flagEquivocation freezeEquivocator
      split
      · split <;> exact keepsMarks_of_eq rfl rfl rfl rfl rfl
      · exact keepsMarks_of_eq rfl rfl rfl rfl rfl
  | opened acc authentic opens root =>
    have hnone : L.getAccountChain block.accountId = [] := by
      simp [getAccountChain, opens.fresh]
    refine .gained block ⟨fun x => ?_, fun _ => opens.balance, fun head hhead => ?_,
      fun hother => ?_, providerLedger_applyBlock _ block, marked_appendForeign _ _ acc block now,
      ?_⟩
    · rw [getAccountChain_appendForeign, getAccountChain_hold]
      split
      · next hx => rw [← hx, hnone]
      · rfl
    · rw [hnone] at hhead
      cases hhead
    · rw [opens.type] at hother
      cases hother
    · exact (keepsMarks_hold L _ _).trans (keepsMarks_appendForeign _ ⟨[], []⟩ acc block now)
  | extended h head acc authentic links checked root =>
    have hchain : L.getAccountChain block.accountId = h.chain :=
      getAccountChain_of_held links.stored
    refine .gained block ⟨fun x => ?_, fun hempty => ?_, fun head' hhead => ?_,
      registered_of_checkBlock checked, providerLedger_applyBlock _ block,
      marked_appendForeign L h acc block now, keepsMarks_appendForeign L h acc block now⟩
    · rw [getAccountChain_appendForeign]
      split
      · next hx => rw [← hx, hchain]
      · rfl
    · have hlast := links.last
      rw [← hchain, hempty] at hlast
      cases hlast
    · rw [hchain, links.last] at hhead
      obtain rfl := Option.some.inj hhead
      exact ⟨links.previousHash, shaped_of_checkBlock checked⟩

/-! ## Every call -/

omit [JsNumber F] in
theorem registerVerifiedMint_keepsMarks (proof : MintProof F) (tokenId : Hex) :
    KeepsMarks L (registerVerifiedMint P cfg L proof tokenId).1 := by
  rcases registerVerifiedMint_outcome P cfg L proof tokenId with h | ⟨-, -, -, -, info, h⟩
  · exact h.symm ▸ .refl L
  · exact h ▸ (keepsMarks_indexBlock L _).trans (keepsMarks_set_info _ tokenId info)

theorem restoreVerifiedBlock_keepsMarks (block : Block F) :
    KeepsMarks L (restoreVerifiedBlock P L block).1 := by
  have outcome := restoreVerifiedBlock_outcome P L block
  generalize (restoreVerifiedBlock P L block).1 = L' at outcome
  cases outcome with
  | refused => exact .refl L
  | indexed => exact keepsMarks_indexBlock L block
  | mint => exact (keepsMarks_indexBlock L block).trans (keepsMarks_set_info _ _ _)
  | nftSend verified type =>
    exact (keepsMarks_indexBlock L block).trans (keepsMarks_applyNftSend _ type)
  | send => exact keepsMarks_of_eq rfl rfl rfl rfl rfl

/-- What any call can do. -/
theorem step_fate (P : Primitives F) (cfg : LedgerConfig)
    (hbonded : ∀ x, 0 ≤ L.validatorRegistry.bondedOf x) (c : Call F) :
    Fate P L (step P cfg L c) := by
  cases hauthor : c.author with
  | some author =>
    obtain ⟨pub, priv, now⟩ := author
    obtain ⟨r, hstep, outcome⟩ := step_of_author P cfg L hauthor
    rw [hstep]
    exact outcome.fate (hbonded pub)
  | none =>
    cases c
    case addBlock block now => exact addBlock_fate L block now
    case openAccount => exact openAccount_fate L _ _ _ _ _ _
    case purgeAccount pub => exact .purged pub rfl
    case reset => exact .reset rfl
    case registerAccount account =>
      obtain ⟨_, _, h⟩ := registerAccount_eq L account
      simp only [step, h]
      exact fate_of_eq rfl rfl (keepsMarks_of_eq rfl rfl rfl rfl rfl)
    case updateAccountFields pub username =>
      obtain ⟨_, _, h⟩ := updateAccountFields_eq L pub username
      simp only [step, h]
      exact fate_of_eq rfl rfl (keepsMarks_of_eq rfl rfl rfl rfl rfl)
    case registerVerifiedMint proof tokenId =>
      have hsame := step_clerical P cfg L (c := .registerVerifiedMint proof tokenId) rfl
      exact fate_of_eq hsame.held hsame.providerLedger
        (registerVerifiedMint_keepsMarks proof tokenId)
    case registerVerifiedSend packet recipientPub =>
      obtain ⟨_, _, _, h, -⟩ := registerVerifiedSend_eq P cfg L packet recipientPub
      simp only [step, h]
      exact fate_of_eq rfl rfl (keepsMarks_of_eq rfl rfl rfl rfl rfl)
    case restoreVerifiedBlock block =>
      have hsame := step_clerical P cfg L (c := .restoreVerifiedBlock block) rfl
      exact fate_of_eq hsame.held hsame.providerLedger (restoreVerifiedBlock_keepsMarks block)
    case applyEvidence ev =>
      refine .kept (applyEvidence_freezes P L ev).chain (fun x => ?_) ?_
      · simp only [step, (applyEvidence_sameHumans P L ev).providerLedger]
        exact .refl x _
      · simp only [step, applyEvidence, freezeEquivocator]
        split <;> [split; skip] <;> exact keepsMarks_of_eq rfl rfl rfl rfl rfl
    case applyEvidenceFromBlocks a b =>
      refine .kept (applyEvidenceFromBlocks_freezes P L a b).chain (fun x => ?_) ?_
      · simp only [step, (applyEvidenceFromBlocks_sameHumans P L a b).providerLedger]
        exact .refl x _
      · simp only [step, applyEvidenceFromBlocks, applyEvidence, freezeEquivocator]
        split <;> [(split <;> [split; skip]); skip] <;>
          exact keepsMarks_of_eq rfl rfl rfl rfl rfl
    case bondStake pub amount =>
      obtain ⟨_, h, -⟩ := bondStake_eq L pub amount
      simp only [step, h]
      exact fate_of_eq rfl rfl (keepsMarks_of_eq rfl rfl rfl rfl rfl)
    case applyCommitteeVote vote =>
      exact fate_of_eq rfl rfl (keepsMarks_of_eq rfl rfl rfl rfl rfl)
    case advanceEpoch betas active =>
      obtain ⟨_, _, _, _, _, h⟩ := advanceEpoch_eq P L betas active
      simp only [step, h]
      exact fate_of_eq rfl rfl (keepsMarks_of_eq rfl rfl rfl rfl rfl)
    case setDiscoveredProviders records =>
      exact .kept (fun _ => rfl) (fun _ => ⟨rfl, rfl⟩) (keepsMarks_of_eq rfl rfl rfl rfl rfl)
    all_goals cases hauthor

end NeuronWeb.EngineLedger
