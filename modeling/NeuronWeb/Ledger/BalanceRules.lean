/-
  Ledger/BalanceRules: how an accepted block may move its account's balance.

  `checkBlock` has one rule for each block type and none for an `open` block above index 0,
  which passes every other check of `addBlock` as soon as its account has signed it.
-/
import NeuronWeb.Ledger.Run
import NeuronWeb.Ledger.Sample

set_option autoImplicit false

namespace NeuronWeb.EngineLedger

variable {F : Type}

/-- The balance movement each block type allows. -/
def BalanceRule (head block : BlockContent F) : Prop :=
  match block.type with
  | .send => ∃ amount, block.amount = some amount ∧ 0 < amount ∧
      block.balance - head.balance = -amount ∧ 0 ≤ block.balance
  | .receive => ∃ amount, block.amount = some amount ∧ 0 < amount ∧
      block.balance - head.balance = amount
  | .storageSettle => ∃ amount, block.amount = some amount ∧ 0 < amount ∧
      block.balance - head.balance = amount
  | _ => block.balance - head.balance = 0

/-! ## One lemma for each rule -/

variable {head block : BlockContent F}

theorem checkSend_eq_none (h : checkSend head block = none) :
    ∃ amount, block.amount = some amount ∧ 0 < amount ∧
      block.balance - head.balance = -amount ∧ 0 ≤ block.balance := by
  unfold checkSend at h
  cases hamount : block.amount with
  | none => simp [hamount] at h
  | some amount =>
    simp only [hamount] at h
    split at h
    · cases h
    · split at h
      · cases h
      · rename_i hpos hbalance
        exact ⟨amount, rfl, by omega, by omega, by omega⟩

theorem checkReceive_eq_none {L : EngineLedger F} (h : L.checkReceive head block = none) :
    (∃ amount, block.amount = some amount ∧ 0 < amount ∧
      block.balance - head.balance = amount) ∧
    ∀ src, L.sourceBlock block = some src →
      src.type = .send ∧ src.recipient = some block.accountId ∧ src.amount = block.amount := by
  unfold checkReceive at h
  cases hamount : block.amount with
  | none => simp [hamount] at h
  | some amount =>
    simp only [hamount] at h
    split at h
    · cases h
    · split at h
      · cases h
      · rename_i hpos hbalance
        refine ⟨⟨amount, rfl, by omega, by omega⟩, fun src hsrc => ?_⟩
        simp only [hsrc] at h
        split at h
        · cases h
        · rename_i hmatch
          simpa only [not_or, ne_eq, Decidable.not_not] using hmatch

theorem balance_eq_of_first_check {reason : String} {rest : Option String}
    (h : (if block.balance ≠ head.balance then some reason else rest) = none) :
    block.balance - head.balance = 0 := by
  split at h
  · cases h
  · omega

variable [JsNumber F] {P : Primitives F}

theorem checkStorageSettle_eq_none {L : EngineLedger F} {head block : BlockContent F}
    (h : checkStorageSettle P L head block = none) :
    ∃ amount, block.amount = some amount ∧ 0 < amount ∧
      block.balance - head.balance = amount := by
  unfold checkStorageSettle at h
  cases hamount : block.amount with
  | none => simp [hamount] at h
  | some amount =>
    simp only [hamount] at h
    split at h
    · cases h
    · split at h
      · cases h
      · exact ⟨amount, rfl, by omega, by omega⟩

/-- A block that passes the rule of its type obeys the balance rule, unless it is an
`open` block, which has to keep the balance on its own. -/
theorem balanceRule_iff_of_checkBlock {L : EngineLedger F} {head block : Block F}
    (h : checkBlock P L head block = none) :
    BalanceRule head.toBlockContent block.toBlockContent ↔
      (block.type = .open → block.balance = head.balance) := by
  unfold checkBlock at h
  unfold BalanceRule
  cases htype : block.type
  all_goals simp only [htype] at h
  case «open» =>
    constructor
    · intro hrule _
      simp only at hrule
      omega
    · intro hopen
      have hbalance := hopen rfl
      simp only
      omega
  case send => simpa using checkSend_eq_none h
  case receive => simpa using (checkReceive_eq_none h).1
  case storageSettle => simpa using checkStorageSettle_eq_none h
  case update => simpa using balance_eq_of_first_check h
  case nftMint => simpa using balance_eq_of_first_check h
  case nftSend => simpa using balance_eq_of_first_check h
  case nftReceive => simpa using balance_eq_of_first_check h
  case nftBurn => simpa using balance_eq_of_first_check h
  case storageRegister => simpa using balance_eq_of_first_check h
  case storageDeregister => simpa using balance_eq_of_first_check h

/-! ## Runs -/

/-- Every block that `addBlock` newly appends behind a head obeys the balance rule. -/
def AppendsByRule (L : EngineLedger F) : Call F → EngineLedger F → Prop
  | .addBlock block _, L' => ∀ head, 1 ≤ block.index →
      L.getAccountHead block.accountId = some head →
      L'.getAccountChain block.accountId = L.getAccountChain block.accountId ++ [block] →
      BalanceRule head.toBlockContent block.toBlockContent
  | _, _ => True

/-- An authentic `open` block that continues a held chain with a balance of its own. -/
structure SelfMint (P : Primitives F) (L : EngineLedger F) (h : Held F) (head block : Block F)
    (acc : AccountAccumulator) : Prop where
  authentic : Authentic P L block
  links : Links L h head block
  index : 1 ≤ block.index
  root : RootMatches P h block acc
  type : block.type = .open
  balance : block.balance ≠ head.balance

/-- The call does not offer a self-minting `open` block. -/
def NoSelfMint (P : Primitives F) (L : EngineLedger F) : Call F → Prop
  | .addBlock block _ => ∀ h head acc, ¬ SelfMint P L h head block acc
  | _ => True

theorem appendsByRule_iff (cfg : LedgerConfig) (L : EngineLedger F) (c : Call F) :
    AppendsByRule L c (step P cfg L c) ↔ NoSelfMint P L c := by
  cases c
  case addBlock block now =>
    constructor
    · rintro hrule h head acc ⟨authentic, links, hindex, root, htype, hbalance⟩
      have hchecked : checkBlock P L head block = none := by simp [checkBlock, htype]
      have hadd := addBlock_extends now authentic links hchecked root
      have hchain := getAccountChain_of_held links.stored
      have hbalanced := hrule head hindex (by rw [getAccountHead_eq, hchain, links.last]) (by
        simp [step, hadd, getAccountChain_appendForeign, hchain])
      exact hbalance ((balanceRule_iff_of_checkBlock hchecked).mp hbalanced htype)
    · intro hnone head hindex hhead hgrows
      have hlength := congrArg List.length hgrows
      simp only [step, List.length_append, List.length_singleton] at hlength
      have outcome := addBlock_outcome P L block now
      generalize hresult : addBlock P L block now = result at outcome hlength
      cases outcome with
      | unchanged r => simp at hlength
      | forked h existing error authentic forks => simp at hlength
      | emptied r authentic opens refused =>
        rw [getAccountHead_eq, getAccountChain, opens.fresh] at hhead
        cases hhead
      | opened acc authentic opens root =>
        rw [getAccountHead_eq, getAccountChain, opens.fresh] at hhead
        cases hhead
      | extended h head' acc authentic links checked root =>
        rw [getAccountHead_eq, getAccountChain_of_held links.stored, links.last] at hhead
        cases hhead
        rw [balanceRule_iff_of_checkBlock checked]
        intro htype
        by_contra hbalance
        exact hnone h head acc ⟨authentic, links, hindex, root, htype, hbalance⟩
  all_goals simp [AppendsByRule, NoSelfMint]

/-- Over every run of the ledger: every block that `addBlock` appends above index 0 moves
the balance exactly as its type allows, if and only if no authentic `open` block that
continues a held chain with a balance of its own is offered. -/
theorem appends_by_rule_iff (P : Primitives F) (cfg : LedgerConfig) (calls : List (Call F)) :
    Run.EveryStep (step P cfg) AppendsByRule (new P) calls ↔
      Run.StepsMeet (step P cfg) (NoSelfMint P) (new P) calls :=
  Run.everyStep_iff_stepsMeet (I := fun _ => True) (fun _ _ _ => trivial)
    (fun L c _ => appendsByRule_iff cfg L c) trivial

/-- Alice opens her account and signs an `open` block with a thousand million UNIT on it. -/
def selfMintRun : List (Call Rat) :=
  let opened : Call Rat := .openAccount "alice" "alice" "nullifier" [] false 0
  let L := step Sample.primitives Sample.config (new Sample.primitives) opened
  [opened, .addBlock (Sample.continuing L { (Sample.header L "alice") with
    type := .open, balance := 1000000000000 }) 1]

/-- A self-signed `open` block above index 0 is accepted with whatever balance it names. -/
theorem self_mint_accepted : ¬ ∀ calls : List (Call Rat),
    Run.EveryStep (step Sample.primitives Sample.config) AppendsByRule
      (new Sample.primitives) calls := by
  intro hall
  have hrule := (hall selfMintRun).2.1 _ (by decide +kernel)
    (Option.eq_some_of_isSome (by decide +kernel)) (by decide +kernel)
  rw [balanceRule_iff_of_checkBlock (P := Sample.primitives) (L := new Sample.primitives)
    (by decide +kernel)] at hrule
  exact absurd (hrule rfl) (by decide +kernel)

end NeuronWeb.EngineLedger
