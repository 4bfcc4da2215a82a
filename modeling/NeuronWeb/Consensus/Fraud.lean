/-
  Consensus/Fraud: double-spend evidence (`engine/consensus/fraud.ts`).

  Two blocks of one account at one height, both carrying the account's signature,
  incriminate it.  `verifyDoubleSpend` ties the two blocks to each other and leaves
  the evidence's own `accountId`, `index` and `previousHash` unread; what those
  fields say is up to whoever sent the evidence.
-/
import NeuronWeb.Core.Block

set_option autoImplicit false

namespace NeuronWeb

variable {F : Type}

structure DoubleSpendEvidence (F : Type) where
  accountId : Hex
  index : Int
  previousHash : Hex
  a : Block F
  b : Block F

/-- Build evidence iff `a` and `b` are a genuine double-spend by one account. -/
def proveDoubleSpend (a b : Block F) : Option (DoubleSpendEvidence F) :=
  if a.accountId ≠ b.accountId then none
  else if a.hash = b.hash then none
  else if a.index ≠ b.index ∨ a.previousHash ≠ b.previousHash then none
  else some ⟨a.accountId, a.index, a.previousHash, a, b⟩

/-- Verify double-spend evidence: both blocks valid and genuinely conflicting. -/
def verifyDoubleSpend (P : Primitives F) (ev : DoubleSpendEvidence F) : Bool :=
  decide (ev.a.accountId = ev.b.accountId) && decide (ev.a.hash ≠ ev.b.hash) &&
    decide (ev.a.index = ev.b.index) && decide (ev.a.previousHash = ev.b.previousHash) &&
    verifyBlock P ev.a && verifyBlock P ev.b

/-- `x` is the account of two blocks with different content hashes, one height and one
predecessor, both validly signed under `x`. -/
structure DoubleSigned (P : Primitives F) (x : Hex) (a b : Block F) : Prop where
  account_a : a.accountId = x
  account_b : b.accountId = x
  hash_ne : a.hash ≠ b.hash
  same_index : a.index = b.index
  same_previousHash : a.previousHash = b.previousHash
  verify_a : verifyBlock P a = true
  verify_b : verifyBlock P b = true

theorem proveDoubleSpend_eq_some {a b : Block F} {ev : DoubleSpendEvidence F}
    (h : proveDoubleSpend a b = some ev) :
    ev = ⟨a.accountId, a.index, a.previousHash, a, b⟩ ∧ a.accountId = b.accountId ∧
      a.hash ≠ b.hash ∧ a.index = b.index ∧ a.previousHash = b.previousHash := by
  unfold proveDoubleSpend at h
  split at h
  · cases h
  · split at h
    · cases h
    · split at h
      · cases h
      · cases h
        rename_i haccount hhash hheight
        simp only [not_or, Decidable.not_not] at haccount hheight
        exact ⟨rfl, haccount, hhash, hheight.1, hheight.2⟩

theorem verifyDoubleSpend_iff (P : Primitives F) (ev : DoubleSpendEvidence F) :
    verifyDoubleSpend P ev = true ↔ DoubleSigned P ev.a.accountId ev.a ev.b := by
  simp only [verifyDoubleSpend, Bool.and_eq_true, decide_eq_true_eq]
  constructor
  · rintro ⟨⟨⟨⟨⟨haccount, hhash⟩, hindex⟩, hprev⟩, ha⟩, hb⟩
    exact ⟨rfl, haccount.symm, hhash, hindex, hprev, ha, hb⟩
  · rintro ⟨_, haccount, hhash, hindex, hprev, ha, hb⟩
    exact ⟨⟨⟨⟨⟨haccount.symm, hhash⟩, hindex⟩, hprev⟩, ha⟩, hb⟩

theorem accountId_of_proveDoubleSpend {a b : Block F} {ev : DoubleSpendEvidence F}
    (h : proveDoubleSpend a b = some ev) : ev.accountId = ev.a.accountId := by
  obtain ⟨rfl, _⟩ := proveDoubleSpend_eq_some h
  rfl

end NeuronWeb
