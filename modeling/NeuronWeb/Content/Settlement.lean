/-
  Content/Settlement: the same served bytes are not paid twice.

  A settle block is paid for the bytes that its readers attest beyond their baselines, and
  applying it moves the baseline of each of these readers to at least what was attested.
  So what has been paid never exceeds the sum of the baselines, and a baseline never
  exceeds the largest total its reader attested.
-/
import NeuronWeb.Content.ProviderLedger
import NeuronWeb.Foundation.Reading
import NeuronWeb.Foundation.Run
import NeuronWeb.Sample
import Mathlib.Data.ENNReal.BigOperators

set_option autoImplicit false

namespace NeuronWeb

variable {F : Type} [JsNumber F]

/-! ## Crediting -/

/-- The receipt counts for `provider`: it names it, comes from somebody else and verifies. -/
def Counts (P : Primitives F) (provider : Hex) (env : SignedReceipt F) : Prop :=
  env.receipt.provider = provider ∧ env.receipt.reader ≠ env.receipt.provider ∧
    P.verify env.signature (receiptPayload env.receipt) env.receipt.reader = true

instance (P : Primitives F) (provider : Hex) (env : SignedReceipt F) :
    Decidable (Counts P provider env) :=
  inferInstanceAs (Decidable (_ ∧ _ ∧ _))

/-- `settledBytes.get(reader) ?? 0`. -/
def baseline (settled : JsMap Hex F) (reader : Hex) : F :=
  (settled.get? reader).getD (JsNumber.ofInt 0)

/-- What a receipt attests beyond the baseline of its reader. -/
def creditDelta (settled : JsMap Hex F) (env : SignedReceipt F) : F :=
  JsNumber.max (JsNumber.ofInt 0)
    (JsNumber.sub env.receipt.bytesTotal (baseline settled env.receipt.reader))

/-- `paid` picks receipts that count, one for each reader at most. -/
structure PaidOnce (P : Primitives F) (provider : Hex) (receipts paid : List (SignedReceipt F)) :
    Prop where
  sublist : paid.Sublist receipts
  counts : ∀ env ∈ paid, Counts P provider env
  distinct : (paid.map fun env => env.receipt.reader).Nodup

/-- Each reader is credited for one counting receipt at most, with what that receipt
attests beyond the baseline. -/
theorem creditReceipts_values (P : Primitives F) (provider : Hex) (settled : JsMap Hex F)
    (receipts : List (SignedReceipt F)) (byHuman : JsMap Hex F) (seen : List Hex)
    (hseen : ∀ reader, reader ∉ seen → byHuman.get? reader = none) :
    ∃ paid, PaidOnce P provider receipts paid ∧ (∀ env ∈ paid, env.receipt.reader ∉ seen) ∧
      (creditReceipts P provider settled receipts byHuman seen).values =
        byHuman.values ++
          paid.map fun env => JsNumber.add (JsNumber.ofInt 0) (creditDelta settled env) := by
  induction receipts generalizing byHuman seen with
  | nil =>
    refine ⟨[], ⟨List.Sublist.refl _, ?_, List.nodup_nil⟩, ?_, ?_⟩
    · simp
    · simp
    · simp [creditReceipts]
  | cons env rest ih =>
    unfold creditReceipts
    simp only
    split
    · obtain ⟨paid, honce, hunseen, hvalues⟩ := ih byHuman seen hseen
      exact ⟨paid, ⟨honce.sublist.cons env, honce.counts, honce.distinct⟩, hunseen, hvalues⟩
    · rename_i hskip
      simp only [not_or, ne_eq, Decidable.not_not, Bool.not_eq_false, List.contains_eq_mem,
        decide_eq_true_eq] at hskip
      obtain ⟨hprovider, hself, hverify, hnew⟩ := hskip
      have hfresh : ∀ reader, reader ∉ env.receipt.reader :: seen →
          reader ∉ seen ∧ env.receipt.reader ≠ reader := by
        intro reader hreader
        rw [List.mem_cons, not_or] at hreader
        exact ⟨hreader.2, Ne.symm hreader.1⟩
      split
      · -- nothing beyond the baseline: the reader is seen, and paid nothing
        obtain ⟨paid, honce, hunseen, hvalues⟩ :=
          ih byHuman (env.receipt.reader :: seen) fun reader h => hseen reader (hfresh reader h).1
        exact ⟨paid, ⟨honce.sublist.cons env, honce.counts, honce.distinct⟩,
          fun e he => (hfresh _ (hunseen e he)).1, hvalues⟩
      · have hnone := hseen _ hnew
        obtain ⟨paid, honce, hunseen, hvalues⟩ :=
          ih (byHuman.set env.receipt.reader (JsNumber.add ((byHuman.get?
              env.receipt.reader).getD (JsNumber.ofInt 0)) (creditDelta settled env)))
            (env.receipt.reader :: seen) (by
              intro reader h
              rw [JsMap.get?_set_ne _ _ (hfresh reader h).2]
              exact hseen reader (hfresh reader h).1)
        refine ⟨env :: paid, ⟨honce.sublist.cons_cons env, ?_, ?_⟩, ?_, ?_⟩
        · intro e he
          rcases List.mem_cons.mp he with rfl | he
          · exact ⟨hprovider, hself, hverify⟩
          · exact honce.counts e he
        · rw [List.map_cons, List.nodup_cons]
          refine ⟨?_, honce.distinct⟩
          intro hmem
          obtain ⟨e, he, hreader⟩ := List.mem_map.mp hmem
          exact (hfresh _ (hunseen e he)).2 hreader.symm
        · intro e he
          rcases List.mem_cons.mp he with rfl | he
          · exact hnew
          · exact (hfresh _ (hunseen e he)).1
        · refine hvalues.trans ?_
          rw [JsMap.values_set_of_fresh hnone, hnone, Option.getD_none, List.map_cons,
            List.append_assoc, List.singleton_append]

/-! ## The cap of one block -/

variable (R : Reading F) {P : Primitives F} {provider : Hex}

/-- The baselines are finite and not negative. -/
def FiniteBaselines (settled : JsMap Hex F) : Prop :=
  ∀ reader b, settled.get? reader = some b → R.real b ∧ 0 ≤ R.value b ∧ R.value b < ⊤

/-- The receipts that count attest numbers, none of them infinite. -/
def FiniteReceipts (P : Primitives F) (provider : Hex) (receipts : List (SignedReceipt F)) :
    Prop :=
  ∀ env ∈ receipts, Counts P provider env →
    R.real env.receipt.bytesTotal ∧ R.value env.receipt.bytesTotal < ⊤

variable {R} {settled : JsMap Hex F} {receipts : List (SignedReceipt F)}

theorem FiniteBaselines.baseline (h : FiniteBaselines R settled) (reader : Hex) :
    R.real (baseline settled reader) ∧ 0 ≤ R.value (baseline settled reader) ∧
      R.value (baseline settled reader) < ⊤ := by
  unfold NeuronWeb.baseline
  cases hget : settled.get? reader with
  | some b => exact h reader b hget
  | none =>
    rw [Option.getD_none, R.value_zero]
    exact ⟨R.real_ofInt 0, le_refl _, EReal.zero_lt_top⟩

theorem FiniteBaselines.creditDelta (h : FiniteBaselines R settled) {env : SignedReceipt F}
    (henv : R.real env.receipt.bytesTotal) :
    R.real (creditDelta settled env) ∧ 0 ≤ R.value (creditDelta settled env) := by
  obtain ⟨hreal, hnonneg, hfinite⟩ := h.baseline env.receipt.reader
  have hsub := R.real_sub henv hreal hnonneg hfinite
  obtain ⟨hmax, hvalue⟩ := R.max_spec (R.real_ofInt 0) hsub
  refine ⟨hmax, ?_⟩
  unfold NeuronWeb.creditDelta
  rw [hvalue, R.value_zero]
  exact le_max_left _ _

/-- The cap of a reader, as a number of bytes. -/
def readerCap : Nat := PER_READER_EPOCH_CAP_BYTES.toNat

/-- The loop that adds up the capped totals: each adds the cap at most. -/
theorem cappedSum_le (totals : List F) (htotals : ∀ t ∈ totals, R.real t ∧ 0 ≤ R.value t)
    (payable : F) (n : Nat) (hreal : R.real payable) (hnonneg : 0 ≤ R.value payable)
    (hle : R.value payable ≤ (((n * readerCap : Nat) : ℝ) : EReal))
    (hn : n + totals.length ≤ MAX_RECEIPTS_PER_SETTLEMENT) :
    let sum := totals.foldl (fun payable total => JsNumber.add payable
      (JsNumber.min total (JsNumber.ofInt PER_READER_EPOCH_CAP_BYTES))) payable
    R.real sum ∧ R.value sum ≤ ((((n + totals.length) * readerCap : Nat) : ℝ) : EReal) := by
  induction totals generalizing payable n with
  | nil => exact ⟨hreal, hle⟩
  | cons total rest ih =>
    obtain ⟨htotal, htotal_nonneg⟩ := htotals total List.mem_cons_self
    have hcap : R.value (JsNumber.ofInt PER_READER_EPOCH_CAP_BYTES) =
        ((readerCap : ℝ) : EReal) :=
      (R.value_ofInt PER_READER_EPOCH_CAP_BYTES (by decide)).trans rfl
    obtain ⟨hmin, hmin_value⟩ := R.min_spec htotal (R.real_ofInt PER_READER_EPOCH_CAP_BYTES)
    rw [hcap] at hmin_value
    have hmin_nonneg : 0 ≤ R.value (JsNumber.min total
        (JsNumber.ofInt PER_READER_EPOCH_CAP_BYTES)) := by
      rw [hmin_value]
      exact le_min htotal_nonneg (by exact_mod_cast Nat.zero_le readerCap)
    obtain ⟨hadd, hadd_nonneg, hadd_le⟩ := R.add_spec hreal hmin hnonneg hmin_nonneg
    rw [List.length_cons] at hn
    have hbound : (n + 1) * readerCap ≤ 2 ^ 53 := by
      have hmul : (n + 1) * readerCap ≤ MAX_RECEIPTS_PER_SETTLEMENT * readerCap :=
        Nat.mul_le_mul_right _ (by omega)
      exact hmul.trans (by decide)
    have hsum : R.value payable + R.value (JsNumber.min total
        (JsNumber.ofInt PER_READER_EPOCH_CAP_BYTES)) ≤
        ((((n + 1) * readerCap : Nat) : ℝ) : EReal) := by
      calc _ ≤ (((n * readerCap : Nat) : ℝ) : EReal) + ((readerCap : ℝ) : EReal) :=
            add_le_add hle (hmin_value ▸ min_le_right _ _)
        _ = ((((n + 1) * readerCap : Nat) : ℝ) : EReal) := by
            rw [← EReal.coe_add, Nat.succ_mul, Nat.cast_add]
    have hrest := ih (fun t ht => htotals t (List.mem_cons_of_mem _ ht)) _ (n + 1) hadd
      hadd_nonneg (hadd_le _ hbound hsum) (by omega)
    have hlength : n + 1 + rest.length = n + (total :: rest).length := by
      rw [List.length_cons]
      omega
    rwa [hlength] at hrest

theorem payable_le_cap (hsettled : FiniteBaselines R settled)
    (hreceipts : FiniteReceipts R P provider receipts)
    (hlength : receipts.length ≤ MAX_RECEIPTS_PER_SETTLEMENT) :
    let payable := (creditFromSignedReceipts P provider receipts settled).payableBytes
    R.real payable ∧
      R.value payable ≤ (((MAX_RECEIPTS_PER_SETTLEMENT * readerCap : Nat) : ℝ) : EReal) := by
  have hzero : (0 : EReal) ≤ (((MAX_RECEIPTS_PER_SETTLEMENT * readerCap : Nat) : ℝ) : EReal) := by
    exact_mod_cast Nat.zero_le _
  unfold creditFromSignedReceipts
  simp only
  split
  · rw [R.value_zero]
    exact ⟨R.real_ofInt 0, hzero⟩
  · obtain ⟨paid, honce, -, hvalues⟩ := creditReceipts_values P provider settled receipts
      JsMap.empty [] (fun reader _ => JsMap.get?_empty reader)
    rw [hvalues]
    have hcount : paid.length ≤ MAX_RECEIPTS_PER_SETTLEMENT :=
      honce.sublist.length_le.trans hlength
    have htotals : ∀ t ∈ paid.map fun env =>
        JsNumber.add (JsNumber.ofInt 0) (creditDelta settled env),
        R.real t ∧ 0 ≤ R.value t := by
      intro t ht
      obtain ⟨env, henv, rfl⟩ := List.mem_map.mp ht
      obtain ⟨hreal, -⟩ := hreceipts env (honce.sublist.subset henv) (honce.counts env henv)
      obtain ⟨hdelta, hdelta_nonneg⟩ := hsettled.creditDelta hreal
      obtain ⟨hadd, hadd_nonneg, -⟩ := R.add_spec (R.real_ofInt 0) hdelta
        (R.value_zero.ge) hdelta_nonneg
      exact ⟨hadd, hadd_nonneg⟩
    have hsum := cappedSum_le _ htotals (JsNumber.ofInt 0) 0 (R.real_ofInt 0) R.value_zero.ge
      (by simp) (by simpa using hcount)
    refine ⟨hsum.1, hsum.2.trans ?_⟩
    rw [EReal.coe_le_coe_iff, Nat.cast_le, Nat.zero_add, List.length_map]
    exact Nat.mul_le_mul_right _ hcount

/-! ## Moving the baselines -/

/-- The bytes settled for a reader. -/
noncomputable def settledOf (R : Reading F) (settled : JsMap Hex F) (reader : Hex) : ENNReal :=
  R.bytes (baseline settled reader)

/-- The largest total that a counting receipt of the reader attests, zero without one. -/
noncomputable def largestAttested (R : Reading F) (P : Primitives F) (provider : Hex)
    (receipts : List (SignedReceipt F)) (reader : Hex) : ENNReal :=
  ((receipts.filter fun env => decide (Counts P provider env ∧ env.receipt.reader = reader)).map
    fun env => R.bytes env.receipt.bytesTotal).foldr max 0

theorem largestAttested_cons (env : SignedReceipt F) (rest : List (SignedReceipt F))
    (reader : Hex) : largestAttested R P provider (env :: rest) reader =
      if Counts P provider env ∧ env.receipt.reader = reader then
        max (R.bytes env.receipt.bytesTotal) (largestAttested R P provider rest reader)
      else largestAttested R P provider rest reader := by
  unfold largestAttested
  rw [List.filter_cons]
  split
  · rename_i h
    rw [decide_eq_true_eq] at h
    rw [if_pos h, List.map_cons, List.foldr_cons]
  · rename_i h
    rw [decide_eq_true_eq] at h
    rw [if_neg h]

theorem le_largestAttested {env : SignedReceipt F} (henv : env ∈ receipts)
    (hcounts : Counts P provider env) :
    R.bytes env.receipt.bytesTotal ≤ largestAttested R P provider receipts env.receipt.reader := by
  induction receipts with
  | nil => cases henv
  | cons first rest ih =>
    rw [largestAttested_cons]
    rcases List.mem_cons.mp henv with rfl | hrest
    · rw [if_pos ⟨hcounts, rfl⟩]
      exact le_max_left _ _
    · split
      · exact (ih hrest).trans (le_max_right _ _)
      · exact ih hrest

theorem largestAttested_append (receipts rest : List (SignedReceipt F)) (reader : Hex) :
    largestAttested R P provider (receipts ++ rest) reader =
      max (largestAttested R P provider receipts reader)
        (largestAttested R P provider rest reader) := by
  induction receipts with
  | nil => simp [largestAttested]
  | cons env receipts ih =>
    rw [List.cons_append, largestAttested_cons, largestAttested_cons, ih]
    split
    · rw [max_assoc]
    · rfl

/-- One receipt through the loop of `applySettle`. -/
def raiseBaseline (P : Primitives F) (provider : Hex) (settled : JsMap Hex F)
    (env : SignedReceipt F) : JsMap Hex F :=
  if Counts P provider env ∧
      JsNumber.lt (baseline settled env.receipt.reader) env.receipt.bytesTotal = true then
    settled.set env.receipt.reader env.receipt.bytesTotal
  else settled

theorem raiseBaselines_cons (env : SignedReceipt F) (rest : List (SignedReceipt F))
    (settled : JsMap Hex F) :
    ProviderLedger.raiseBaselines P provider settled (env :: rest) =
      ProviderLedger.raiseBaselines P provider (raiseBaseline P provider settled env) rest := by
  have hstep : (if env.receipt.provider ≠ provider ∨ env.receipt.reader = env.receipt.provider ∨
      P.verify env.signature (receiptPayload env.receipt) env.receipt.reader = false then settled
      else
        if JsNumber.lt (baseline settled env.receipt.reader) env.receipt.bytesTotal then
          settled.set env.receipt.reader env.receipt.bytesTotal
        else settled) = raiseBaseline P provider settled env := by
    unfold raiseBaseline
    by_cases hcounts : Counts P provider env
    · have hnot : ¬ (env.receipt.provider ≠ provider ∨
          env.receipt.reader = env.receipt.provider ∨
          P.verify env.signature (receiptPayload env.receipt) env.receipt.reader = false) := by
        obtain ⟨hprovider, hself, hverify⟩ := hcounts
        simp only [hprovider, ne_eq, not_true_eq_false, false_or, hverify, Bool.true_eq_false,
          or_false]
        exact hprovider ▸ hself
      rw [if_neg hnot]
      simp only [hcounts, true_and]
    · have hskip : env.receipt.provider ≠ provider ∨
          env.receipt.reader = env.receipt.provider ∨
          P.verify env.signature (receiptPayload env.receipt) env.receipt.reader = false := by
        by_contra hnot
        simp only [not_or, ne_eq, Decidable.not_not, Bool.not_eq_false] at hnot
        exact hcounts hnot
      rw [if_pos hskip, if_neg (fun h => hcounts h.1)]
  unfold ProviderLedger.raiseBaselines
  rw [List.foldl_cons, ← hstep]
  rfl

section Raise

variable {env : SignedReceipt F} (hsettled : FiniteBaselines R settled)
  (henv : Counts P provider env →
    R.real env.receipt.bytesTotal ∧ R.value env.receipt.bytesTotal < ⊤)

include hsettled henv

theorem settledOf_raiseBaseline (reader : Hex) :
    settledOf R (raiseBaseline P provider settled env) reader =
      if Counts P provider env ∧ env.receipt.reader = reader then
        max (R.bytes env.receipt.bytesTotal) (settledOf R settled reader)
      else settledOf R settled reader := by
  unfold raiseBaseline settledOf
  by_cases hcounts : Counts P provider env
  · obtain ⟨hreal, -⟩ := henv hcounts
    obtain ⟨hbase, -, -⟩ := hsettled.baseline env.receipt.reader
    cases hlt : JsNumber.lt (baseline settled env.receipt.reader) env.receipt.bytesTotal with
    | true =>
      simp only [hcounts, true_and, if_true]
      unfold baseline
      rw [JsMap.get?_set]
      split
      · rename_i hreader
        subst hreader
        rw [Option.getD_some, max_eq_left]
        exact R.bytes_mono ((R.lt_iff hbase hreal).mp hlt).le
      · rfl
    | false =>
      simp only [hcounts, true_and, Bool.false_eq_true, if_false]
      split
      · rename_i hreader
        subst hreader
        rw [max_eq_right]
        exact R.bytes_mono (R.le_of_lt_eq_false hbase hreal hlt)
      · rfl
  · rw [if_neg (fun h => hcounts h.1), if_neg (fun h => hcounts h.1)]

theorem finiteBaselines_raiseBaseline :
    FiniteBaselines R (raiseBaseline P provider settled env) := by
  unfold raiseBaseline
  split
  · rename_i h
    obtain ⟨hreal, hfinite⟩ := henv h.1
    obtain ⟨hbase, hnonneg, -⟩ := hsettled.baseline env.receipt.reader
    intro reader b hget
    rw [JsMap.get?_set] at hget
    split at hget
    · cases hget
      exact ⟨hreal, hnonneg.trans ((R.lt_iff hbase hreal).mp h.2).le, hfinite⟩
    · exact hsettled reader b hget
  · exact hsettled

end Raise

theorem raiseBaselines_spec (hsettled : FiniteBaselines R settled)
    (hreceipts : FiniteReceipts R P provider receipts) :
    FiniteBaselines R (ProviderLedger.raiseBaselines P provider settled receipts) ∧
      ∀ reader, settledOf R (ProviderLedger.raiseBaselines P provider settled receipts) reader =
        max (settledOf R settled reader) (largestAttested R P provider receipts reader) := by
  induction receipts generalizing settled with
  | nil =>
    refine ⟨hsettled, fun reader => ?_⟩
    simp [ProviderLedger.raiseBaselines, largestAttested]
  | cons env rest ih =>
    have henv := hreceipts env List.mem_cons_self
    rw [raiseBaselines_cons]
    obtain ⟨hfinite, hvalue⟩ := ih (finiteBaselines_raiseBaseline hsettled henv)
      fun e he => hreceipts e (List.mem_cons_of_mem _ he)
    refine ⟨hfinite, fun reader => ?_⟩
    rw [hvalue, settledOf_raiseBaseline hsettled henv, largestAttested_cons]
    split
    · rw [max_comm (R.bytes _) (settledOf R settled reader), max_assoc]
    · rfl

/-! ## One settle block -/

namespace ProviderLedger

/-- A settle block of `pub`. -/
def IsSettle (pub : Hex) (block : BlockContent F) : Prop :=
  block.type = .storageSettle ∧ block.accountId = pub

instance (pub : Hex) (block : BlockContent F) : Decidable (IsSettle pub block) :=
  inferInstanceAs (Decidable (_ ∧ _))

/-- The receipts that a block carries. -/
def receiptsOf (block : BlockContent F) : List (SignedReceipt F) :=
  (block.storage.bind StoragePayload.receipts).getD []

def periodOf (block : BlockContent F) : Option F := block.storage.bind StoragePayload.periodIndex

/-- `lastSettledPeriod.get(pub) ?? -1`. -/
def lastPeriod (L : ProviderLedger F) (pub : Hex) : F :=
  (L.lastSettledPeriod.get? pub).getD (JsNumber.ofInt (-1))

/-- `Number(block.amount ?? 0n)`. -/
def claimedBytes (block : BlockContent F) : F := JsNumber.ofInt (block.amount.getD 0)

/-- What a settle block that passes validation shows. -/
structure Supported (P : Primitives F) (L : ProviderLedger F) (block : BlockContent F) (p : F) :
    Prop where
  period : periodOf block = some p
  later : JsNumber.le p (L.lastPeriod block.accountId) = false
  bounded : (receiptsOf block).length ≤ MAX_RECEIPTS_PER_SETTLEMENT
  positive : JsNumber.lt (JsNumber.ofInt 0) (claimedBytes block) = true
  covered : JsNumber.lt (settlementCredit P L block.accountId block.storage).payableBytes
    (claimedBytes block) = false

variable {block : BlockContent F}

variable {L : ProviderLedger F}

theorem supported_of_validate
    (htype : block.type = .storageSettle) (h : validate P L block = none) :
    ∃ p, Supported P L block p := by
  unfold validate at h
  rw [htype] at h
  simp only [validateSettle] at h
  split at h
  · cases h
  · rename_i st hstorage
    split at h
    · cases h
    · rename_i p hperiod
      split at h
      · cases h
      · rename_i hlater
        split at h
        · cases h
        · rename_i hbounded
          split at h
          · cases h
          · split at h
            · cases h
            · rename_i hpositive
              split at h
              · cases h
              · rename_i hcovered
                refine ⟨p, ?_, ?_, ?_, ?_, ?_⟩
                · simp [periodOf, hstorage, hperiod]
                · simpa [lastPeriod] using hlater
                · simpa [receiptsOf, hstorage] using hbounded
                · simpa [claimedBytes] using hpositive
                · simpa [claimedBytes] using hcovered

theorem apply_settle {pub : Hex} {p : F}
    (hblock : IsSettle pub block) (hperiod : periodOf block = some p) :
    (apply P L block).settledFor pub =
        raiseBaselines P pub (L.settledFor pub) (receiptsOf block) ∧
      (apply P L block).lastPeriod pub = p := by
  obtain ⟨htype, rfl⟩ := hblock
  unfold periodOf at hperiod
  obtain ⟨st, hstorage, hp⟩ := Option.bind_eq_some_iff.mp hperiod
  simp [apply, htype, applySettle, hstorage, hp, settledFor, lastPeriod, receiptsOf]

theorem apply_other {pub : Hex} (hblock : ¬ IsSettle pub block) :
    (apply P L block).settledFor pub = L.settledFor pub ∧
      (apply P L block).lastPeriod pub = L.lastPeriod pub := by
  unfold apply
  cases htype : block.type
  case storageSettle =>
    have hne : block.accountId ≠ pub := fun h => hblock ⟨htype, h⟩
    simp only [applySettle]
    split
    · simp only [settledFor, lastPeriod, JsMap.get?_set, hne, if_false, and_self]
    · exact ⟨rfl, rfl⟩
  all_goals exact ⟨rfl, rfl⟩

/-- The assumption on the credit of a block: one receipt for each reader that is paid, and
together at most the bytes that these attest beyond the baselines. -/
def CreditsOnce (R : Reading F) (P : Primitives F) (L : ProviderLedger F)
    (block : BlockContent F) : Prop :=
  ∃ paid, PaidOnce P block.accountId (receiptsOf block) paid ∧
    R.bytes (settlementCredit P L block.accountId block.storage).payableBytes ≤
      (paid.map fun env => R.bytes env.receipt.bytesTotal -
        settledOf R (L.settledFor block.accountId) env.receipt.reader).sum

theorem Supported.amount {p : F}
    (h : Supported P L block p) (hsettled : FiniteBaselines R (L.settledFor block.accountId))
    (hreceipts : FiniteReceipts R P block.accountId (receiptsOf block)) :
    0 < block.amount.getD 0 ∧ ((block.amount.getD 0).toNat : ENNReal) ≤
      R.bytes (settlementCredit P L block.accountId block.storage).payableBytes := by
  obtain ⟨hreal, hcap⟩ := payable_le_cap hsettled hreceipts h.bounded
  have hclaimed : R.real (claimedBytes block) := R.real_ofInt _
  have hle : R.value (claimedBytes block) ≤
      R.value (settlementCredit P L block.accountId block.storage).payableBytes :=
    R.le_of_lt_eq_false hreal hclaimed h.covered
  have hpos : 0 < R.value (claimedBytes block) := by
    rw [← R.value_zero]
    exact (R.lt_iff (R.real_ofInt 0) hclaimed).mp h.positive
  obtain ⟨hamount, hbytes⟩ := R.bytes_ofInt hpos (hle.trans hcap) (by decide)
  exact ⟨hamount, hbytes ▸ R.bytes_mono hle⟩

/-- What a set of readers is credited is at most what lifting them beyond their baselines
adds up to. -/
theorem paid_le_lifted {paid : List (SignedReceipt F)} (honce : PaidOnce P provider receipts paid)
    {readers : Finset Hex}
    (hreaders : ∀ env ∈ receipts, Counts P provider env → env.receipt.reader ∈ readers)
    (base : Hex → ENNReal) :
    (paid.map fun env => R.bytes env.receipt.bytesTotal - base env.receipt.reader).sum ≤
      ∑ reader ∈ readers, (largestAttested R P provider receipts reader - base reader) := by
  let lifted : Hex → ENNReal := fun reader =>
    largestAttested R P provider receipts reader - base reader
  have hmem : ∀ env ∈ paid, env ∈ receipts ∧ Counts P provider env := fun env henv =>
    ⟨honce.sublist.subset henv, honce.counts env henv⟩
  calc (paid.map fun env => R.bytes env.receipt.bytesTotal - base env.receipt.reader).sum
      ≤ (paid.map fun env => lifted env.receipt.reader).sum := by
        refine List.sum_le_sum fun env henv => ?_
        exact tsub_le_tsub_right (le_largestAttested (hmem env henv).1 (hmem env henv).2) _
    _ = ((paid.map fun env => env.receipt.reader).map lifted).sum := by
        rw [List.map_map]
        rfl
    _ = ∑ reader ∈ (paid.map fun env => env.receipt.reader).toFinset, lifted reader :=
        (List.sum_toFinset lifted honce.distinct).symm
    _ ≤ ∑ reader ∈ readers, lifted reader := by
        refine Finset.sum_le_sum_of_subset fun reader hreader => ?_
        obtain ⟨env, henv, rfl⟩ := List.mem_map.mp (List.mem_toFinset.mp hreader)
        exact hreaders env (hmem env henv).1 (hmem env henv).2

theorem Supported.paid_le {L : ProviderLedger F} {block : BlockContent F} {p : F}
    (h : Supported P L block p) (hsettled : FiniteBaselines R (L.settledFor block.accountId))
    (hreceipts : FiniteReceipts R P block.accountId (receiptsOf block))
    (hcredit : CreditsOnce R P L block) {readers : Finset Hex}
    (hreaders : ∀ env ∈ receiptsOf block, Counts P block.accountId env →
      env.receipt.reader ∈ readers) :
    ∑ reader ∈ readers, settledOf R (L.settledFor block.accountId) reader +
        ((block.amount.getD 0).toNat : ENNReal) ≤
      ∑ reader ∈ readers, max (settledOf R (L.settledFor block.accountId) reader)
        (largestAttested R P block.accountId (receiptsOf block) reader) := by
  obtain ⟨paid, honce, hpaid⟩ := hcredit
  have hamount := (h.amount hsettled hreceipts).2.trans
    (hpaid.trans (paid_le_lifted honce hreaders _))
  calc _ ≤ ∑ reader ∈ readers, settledOf R (L.settledFor block.accountId) reader +
        ∑ reader ∈ readers, (largestAttested R P block.accountId (receiptsOf block) reader -
          settledOf R (L.settledFor block.accountId) reader) := add_le_add_right hamount _
    _ = ∑ reader ∈ readers, max (settledOf R (L.settledFor block.accountId) reader)
        (largestAttested R P block.accountId (receiptsOf block) reader) := by
        rw [← Finset.sum_add_distrib]
        refine Finset.sum_congr rfl fun reader _ => ?_
        exact add_tsub_eq_max

/-! ## Runs -/

/-- The settle blocks of `pub`, among blocks of any accounts. -/
def settlesOf (pub : Hex) (blocks : List (BlockContent F)) : List (BlockContent F) :=
  blocks.filter fun block => decide (IsSettle pub block)

def periodsOf (pub : Hex) (blocks : List (BlockContent F)) : List F :=
  (settlesOf pub blocks).filterMap periodOf

def amountsOf (pub : Hex) (blocks : List (BlockContent F)) : List Int :=
  (settlesOf pub blocks).map fun block => block.amount.getD 0

/-- Every receipt that a settle block of `pub` carries. -/
def carried (pub : Hex) (blocks : List (BlockContent F)) : List (SignedReceipt F) :=
  (settlesOf pub blocks).flatMap receiptsOf

/-- The readers of the receipts that count for `pub`. -/
def readersOf (P : Primitives F) (pub : Hex) (blocks : List (BlockContent F)) : Finset Hex :=
  (((carried pub blocks).filter fun env => decide (Counts P pub env)).map
    fun env => env.receipt.reader).toFinset

/-- Every settle block of `pub` meets `C` in the state that it is applied in. -/
def EachSettle (P : Primitives F) (pub : Hex) (C : ProviderLedger F → BlockContent F → Prop) :
    ProviderLedger F → List (BlockContent F) → Prop :=
  Run.StepsMeet (apply P) fun L block => IsSettle pub block → C L block

section Runs

variable {pub : Hex} {block : BlockContent F} {rest : List (BlockContent F)}

omit [JsNumber F] in
theorem settlesOf_cons_of_settle (h : IsSettle pub block) :
    settlesOf pub (block :: rest) = block :: settlesOf pub rest := by
  rw [settlesOf, List.filter_cons, if_pos (by simpa using h)]
  rfl

omit [JsNumber F] in
theorem settlesOf_cons_of_other (h : ¬ IsSettle pub block) :
    settlesOf pub (block :: rest) = settlesOf pub rest := by
  rw [settlesOf, List.filter_cons, if_neg (by simpa using h)]
  rfl

/-- The run lemma: what a run pays, it settles. -/
theorem paid_le_settled (readers : Finset Hex) {L : ProviderLedger F}
    {blocks : List (BlockContent F)} (hL : FiniteBaselines R (L.settledFor pub))
    (hvalid : EachSettle P pub (fun L block => validate P L block = none) L blocks)
    (hcredit : EachSettle P pub (CreditsOnce R P) L blocks)
    (hfinite : FiniteReceipts R P pub (carried pub blocks))
    (hreaders : ∀ env ∈ carried pub blocks, Counts P pub env → env.receipt.reader ∈ readers) :
    (∀ amount ∈ amountsOf pub blocks, 0 < amount) ∧
      ∑ reader ∈ readers, settledOf R (L.settledFor pub) reader +
          ((((amountsOf pub blocks).map Int.toNat).sum : Nat) : ENNReal) ≤
        ∑ reader ∈ readers, max (settledOf R (L.settledFor pub) reader)
          (largestAttested R P pub (carried pub blocks) reader) := by
  induction blocks generalizing L with
  | nil =>
    refine ⟨by simp [amountsOf, settlesOf], ?_⟩
    simp [amountsOf, settlesOf, carried, largestAttested]
  | cons block rest ih =>
    obtain ⟨hvalid_block, hvalid_rest⟩ := hvalid
    obtain ⟨hcredit_block, hcredit_rest⟩ := hcredit
    by_cases hblock : IsSettle pub block
    · have hcarried : carried pub (block :: rest) = receiptsOf block ++ carried pub rest := by
        rw [carried, settlesOf_cons_of_settle hblock, List.flatMap_cons]
        rfl
      have hamounts : amountsOf pub (block :: rest) =
          block.amount.getD 0 :: amountsOf pub rest := by
        rw [amountsOf, settlesOf_cons_of_settle hblock, List.map_cons]
        rfl
      obtain ⟨p, hsupported⟩ := supported_of_validate hblock.1 (hvalid_block hblock)
      obtain ⟨hmoved, -⟩ := apply_settle (P := P) (L := L) hblock hsupported.period
      have hpub := hblock.2
      rw [hcarried] at hfinite hreaders ⊢
      have hfinite_block : FiniteReceipts R P pub (receiptsOf block) := fun env henv =>
        hfinite env (List.mem_append_left _ henv)
      have hreaders_block : ∀ env ∈ receiptsOf block, Counts P pub env →
          env.receipt.reader ∈ readers := fun env henv =>
        hreaders env (List.mem_append_left _ henv)
      subst hpub
      obtain ⟨hpositive, -⟩ := hsupported.amount hL hfinite_block
      have hpaid := hsupported.paid_le hL hfinite_block (hcredit_block hblock) hreaders_block
      obtain ⟨hL', hlifted⟩ := raiseBaselines_spec hL hfinite_block
      rw [← hmoved] at hL' hlifted
      obtain ⟨hpositive_rest, hrest⟩ := ih hL' hvalid_rest hcredit_rest
        (fun env henv => hfinite env (List.mem_append_right _ henv))
        (fun env henv => hreaders env (List.mem_append_right _ henv))
      rw [hamounts]
      refine ⟨?_, ?_⟩
      · intro amount hamount
        rcases List.mem_cons.mp hamount with rfl | hamount
        · exact hpositive
        · exact hpositive_rest amount hamount
      · rw [List.map_cons, List.sum_cons, Nat.cast_add, ← add_assoc]
        calc _ ≤ ∑ reader ∈ readers, settledOf R
                  ((apply P L block).settledFor block.accountId) reader +
                ((((amountsOf block.accountId rest).map Int.toNat).sum : Nat) : ENNReal) := by
              refine add_le_add_left ?_ _
              rw [Finset.sum_congr rfl fun reader _ => hlifted reader]
              exact hpaid
          _ ≤ _ := hrest
          _ = _ := by
              refine Finset.sum_congr rfl fun reader _ => ?_
              rw [hlifted, largestAttested_append, max_assoc]
    · have hsettles : settlesOf pub (block :: rest) = settlesOf pub rest :=
        settlesOf_cons_of_other hblock
      obtain ⟨hkept, -⟩ := apply_other (P := P) (L := L) hblock
      have hcarried : carried pub (block :: rest) = carried pub rest := by
        rw [carried, hsettles]
        rfl
      have hamounts : amountsOf pub (block :: rest) = amountsOf pub rest := by
        rw [amountsOf, hsettles]
        rfl
      rw [hcarried] at hfinite hreaders ⊢
      rw [hamounts, ← hkept]
      exact ih (hkept ▸ hL) hvalid_rest hcredit_rest hfinite hreaders

/-- The accepted periods increase, from the one that is on record. -/
theorem periods_increase {L : ProviderLedger F} {blocks : List (BlockContent F)}
    (hlast : R.real (L.lastPeriod pub))
    (hvalid : EachSettle P pub (fun L block => validate P L block = none) L blocks)
    (hreal : ∀ p ∈ periodsOf pub blocks, R.real p) :
    (∀ p ∈ periodsOf pub blocks, R.value (L.lastPeriod pub) < R.value p) ∧
      (periodsOf pub blocks).Pairwise fun p q => JsNumber.lt p q = true := by
  induction blocks generalizing L with
  | nil => exact ⟨by simp [periodsOf, settlesOf], by simp [periodsOf, settlesOf]⟩
  | cons block rest ih =>
    obtain ⟨hvalid_block, hvalid_rest⟩ := hvalid
    by_cases hblock : IsSettle pub block
    · obtain ⟨p, hsupported⟩ := supported_of_validate hblock.1 (hvalid_block hblock)
      obtain ⟨-, hmoved⟩ := apply_settle (P := P) (L := L) hblock hsupported.period
      have hperiods : periodsOf pub (block :: rest) = p :: periodsOf pub rest := by
        rw [periodsOf, settlesOf_cons_of_settle hblock,
          List.filterMap_cons_some hsupported.period]
        rfl
      rw [hperiods] at hreal ⊢
      have hp : R.real p := hreal p List.mem_cons_self
      have hlater : R.value (L.lastPeriod pub) < R.value p :=
        R.lt_of_le_eq_false hp hlast (hblock.2 ▸ hsupported.later)
      obtain ⟨hafter, hpairwise⟩ := ih (hmoved ▸ hp) hvalid_rest
        fun q hq => hreal q (List.mem_cons_of_mem p hq)
      rw [hmoved] at hafter
      refine ⟨?_, ?_⟩
      · intro q hq
        rcases List.mem_cons.mp hq with rfl | hq
        · exact hlater
        · exact hlater.trans (hafter q hq)
      · rw [List.pairwise_cons]
        refine ⟨fun q hq => ?_, hpairwise⟩
        exact (R.lt_iff hp (hreal q (List.mem_cons_of_mem p hq))).mpr (hafter q hq)
    · obtain ⟨-, hkept⟩ := apply_other (P := P) (L := L) hblock
      have hperiods : periodsOf pub (block :: rest) = periodsOf pub rest := by
        rw [periodsOf, settlesOf_cons_of_other hblock]
        rfl
      rw [hperiods] at hreal ⊢
      rw [← hkept]
      exact ih (hkept ▸ hlast) hvalid_rest hreal

end Runs

/-! ## The same bytes are not paid twice -/

/-- The numbers of a block that came as JSON: not NaN. -/
structure OnWire (R : Reading F) (block : BlockContent F) : Prop where
  period : ∀ p, periodOf block = some p → R.real p
  receipts : ∀ env ∈ receiptsOf block, R.real env.receipt.bytesTotal

theorem mem_readersOf {pub : Hex} {blocks : List (BlockContent F)} {env : SignedReceipt F}
    (henv : env ∈ carried pub blocks) (hcounts : Counts P pub env) :
    env.receipt.reader ∈ readersOf P pub blocks := by
  refine List.mem_toFinset.mpr (List.mem_map.mpr ⟨env, List.mem_filter.mpr ⟨henv, ?_⟩, rfl⟩)
  simpa using hcounts

theorem sum_eq_toNat_sum {amounts : List Int} (h : ∀ amount ∈ amounts, 0 < amount) :
    amounts.sum = ((amounts.map Int.toNat).sum : Nat) := by
  induction amounts with
  | nil => rfl
  | cons amount rest ih =>
    have hamount := h amount List.mem_cons_self
    rw [List.sum_cons, List.map_cons, List.sum_cons,
      ih fun a ha => h a (List.mem_cons_of_mem amount ha)]
    omega

/-- Along any sequence of blocks in which the settle blocks of `pub` pass validation before
they are applied, their periods increase, and together they pay at most the sum, over the
readers, of the largest total that the reader attested. -/
theorem same_bytes_paid_once (R : Reading F) (P : Primitives F) (pub : Hex)
    (blocks : List (BlockContent F)) (hwire : ∀ block ∈ settlesOf pub blocks, OnWire R block)
    (hcredit : EachSettle P pub (CreditsOnce R P) new blocks)
    (hvalid : EachSettle P pub (fun L block => validate P L block = none) new blocks) :
    (periodsOf pub blocks).Pairwise (fun p q => JsNumber.lt p q = true) ∧
      (((amountsOf pub blocks).sum : ℝ) : EReal) ≤
        ((∑ reader ∈ readersOf P pub blocks,
          largestAttested R P pub (carried pub blocks) reader : ENNReal) : EReal) := by
  refine ⟨?_, ?_⟩
  · refine (periods_increase (R.real_ofInt (-1)) hvalid fun p hp => ?_).2
    obtain ⟨block, hblock, hperiod⟩ := List.mem_filterMap.mp hp
    exact (hwire block hblock).period p hperiod
  · by_cases hfinite : FiniteReceipts R P pub (carried pub blocks)
    · have hnone : FiniteBaselines R ((new : ProviderLedger F).settledFor pub) :=
        fun reader b h => by cases h
      obtain ⟨hpositive, hpaid⟩ := paid_le_settled (readersOf P pub blocks) hnone hvalid hcredit
        hfinite fun env henv hcounts => mem_readersOf henv hcounts
      have hzero : ∀ reader, settledOf R ((new : ProviderLedger F).settledFor pub) reader = 0 :=
        fun reader => R.bytes_zero
      simp only [hzero, Finset.sum_const_zero, zero_add, zero_le, max_eq_right] at hpaid
      have hcast : (((amountsOf pub blocks).sum : ℝ) : EReal) =
          ((((((amountsOf pub blocks).map Int.toNat).sum : Nat) : ENNReal)) : EReal) := by
        rw [sum_eq_toNat_sum hpositive, Int.cast_natCast, ← ENNReal.coe_natCast,
          EReal.coe_nnreal_eq_coe_real, NNReal.coe_natCast]
      rw [hcast]
      exact EReal.coe_ennreal_le_coe_ennreal_iff.mpr hpaid
    · -- an infinite total is attested, and bounds any payment
      unfold FiniteReceipts at hfinite
      push Not at hfinite
      obtain ⟨env, henv, hcounts, hinfinite⟩ := hfinite
      obtain ⟨block, hblock, hreceipt⟩ := List.mem_flatMap.mp henv
      have htop := hinfinite ((hwire block hblock).receipts env hreceipt)
      have hbytes : R.bytes env.receipt.bytesTotal = ⊤ :=
        EReal.toENNReal_eq_top_iff.mpr (top_le_iff.mp htop)
      have hlargest : largestAttested R P pub (carried pub blocks) env.receipt.reader = ⊤ :=
        top_le_iff.mp (hbytes ▸ le_largestAttested henv hcounts)
      have hsum : ∑ reader ∈ readersOf P pub blocks,
          largestAttested R P pub (carried pub blocks) reader = ⊤ :=
        ENNReal.sum_eq_top.mpr ⟨_, mem_readersOf henv hcounts, hlargest⟩
      rw [hsum]
      exact le_top

/-! ## Exact arithmetic -/

section Exact

variable {P : Primitives Rat}

theorem bytes_ratReading (x : Rat) : ratReading.bytes x = ENNReal.ofReal (x : ℝ) := rfl

theorem finiteReceipts_rat (receipts : List (SignedReceipt Rat)) (provider : Hex) :
    FiniteReceipts ratReading P provider receipts :=
  fun _ _ _ => ⟨trivial, EReal.coe_lt_top _⟩

theorem bytes_creditDelta_rat {settled : JsMap Hex Rat}
    (hsettled : FiniteBaselines ratReading settled) (env : SignedReceipt Rat) :
    ratReading.bytes (JsNumber.add (JsNumber.ofInt 0) (creditDelta settled env)) =
      ratReading.bytes env.receipt.bytesTotal -
        settledOf ratReading settled env.receipt.reader := by
  obtain ⟨-, hnonneg, -⟩ := hsettled.baseline env.receipt.reader
  have hbase : (0 : ℝ) ≤ ((baseline settled env.receipt.reader : Rat) : ℝ) := by
    simpa [ratReading] using hnonneg
  unfold settledOf
  rw [bytes_ratReading, bytes_ratReading, bytes_ratReading, ← ENNReal.ofReal_sub _ hbase]
  simp only [creditDelta, JsNumber.add, JsNumber.ofInt, JsNumber.max, JsNumber.sub, Int.cast_zero,
    zero_add]
  split
  · rw [Rat.cast_sub]
  · rename_i hneg
    rw [Rat.cast_zero, ENNReal.ofReal_zero, eq_comm, ENNReal.ofReal_eq_zero, ← Rat.cast_sub]
    exact_mod_cast (not_le.mp hneg).le

theorem bytes_cappedSum_rat (totals : List Rat) (payable : Rat) :
    ratReading.bytes (totals.foldl (fun payable total => JsNumber.add payable
      (JsNumber.min total (JsNumber.ofInt PER_READER_EPOCH_CAP_BYTES))) payable) ≤
      ratReading.bytes payable + (totals.map ratReading.bytes).sum := by
  induction totals generalizing payable with
  | nil => simp
  | cons total rest ih =>
    have hmin : (JsNumber.min total (JsNumber.ofInt PER_READER_EPOCH_CAP_BYTES) : Rat) ≤
        total := by
      simp only [JsNumber.min]
      split
      · exact le_refl total
      · rename_i h
        exact (not_le.mp h).le
    rw [List.foldl_cons, List.map_cons, List.sum_cons, ← add_assoc]
    refine (ih _).trans (add_le_add_left ?_ _)
    rw [bytes_ratReading, bytes_ratReading, bytes_ratReading]
    refine le_trans ?_ ENNReal.ofReal_add_le
    apply ENNReal.ofReal_le_ofReal
    have hsum : (JsNumber.add payable (JsNumber.min total
        (JsNumber.ofInt PER_READER_EPOCH_CAP_BYTES)) : Rat) ≤ payable + total :=
      add_le_add_right hmin payable
    exact_mod_cast hsum

/-- In exact arithmetic the code credits each reader once, with at most the bytes beyond
its baseline. -/
theorem creditsOnce_rat {L : ProviderLedger Rat} {block : BlockContent Rat}
    (hL : FiniteBaselines ratReading (L.settledFor block.accountId)) :
    CreditsOnce ratReading P L block := by
  obtain ⟨paid, honce, -, hvalues⟩ := creditReceipts_values P block.accountId
    (L.settledFor block.accountId) (receiptsOf block) JsMap.empty []
    (fun reader _ => JsMap.get?_empty reader)
  refine ⟨paid, honce, ?_⟩
  change ratReading.bytes (creditFromSignedReceipts P block.accountId (receiptsOf block)
    (L.settledFor block.accountId)).payableBytes ≤ _
  unfold creditFromSignedReceipts
  simp only
  split
  · rw [Reading.bytes_zero]
    exact zero_le
  · rw [hvalues]
    refine (bytes_cappedSum_rat _ _).trans ?_
    rw [Reading.bytes_zero, zero_add]
    refine le_of_eq ?_
    change (List.map ratReading.bytes (paid.map _)).sum = _
    rw [List.map_map]
    refine congrArg List.sum (List.map_congr_left fun env _ => ?_)
    exact bytes_creditDelta_rat hL env

theorem finiteBaselines_apply_rat {L : ProviderLedger Rat} {pub : Hex}
    (hL : FiniteBaselines ratReading (L.settledFor pub)) (block : BlockContent Rat) :
    FiniteBaselines ratReading ((apply P L block).settledFor pub) := by
  by_cases hblock : IsSettle pub block
  · cases hperiod : periodOf block with
    | some p =>
      rw [(apply_settle hblock hperiod).1]
      exact (raiseBaselines_spec hL (finiteReceipts_rat _ pub)).1
    | none =>
      have hkept : apply P L block = L := by
        have hbind : block.storage.bind StoragePayload.periodIndex = none := hperiod
        simp only [apply, hblock.1, applySettle, hbind]
        cases block.storage <;> rfl
      rw [hkept]
      exact hL
  · rw [(apply_other hblock).1]
    exact hL

theorem eachSettle_creditsOnce_rat (pub : Hex) (blocks : List (BlockContent Rat)) :
    EachSettle P pub (CreditsOnce ratReading P) new blocks := by
  have hrun : ∀ L : ProviderLedger Rat, FiniteBaselines ratReading (L.settledFor pub) →
      EachSettle P pub (CreditsOnce ratReading P) L blocks := by
    intro L hL
    induction blocks generalizing L with
    | nil => trivial
    | cons block rest ih =>
      refine ⟨fun hblock => ?_, ih _ (finiteBaselines_apply_rat hL block)⟩
      exact creditsOnce_rat (hblock.2 ▸ hL)
  exact hrun new fun reader b h => by cases h

end Exact

/-! ## Readers that attest a debt -/

/-- A receipt that the reader signs for the provider. -/
def receiptFrom (reader : Hex) (bytesTotal : Rat) : SignedReceipt Rat :=
  let receipt : ReadReceiptWire Rat :=
    { reader, provider := "provider", counter := 1, bytesTotal, readsTotal := 1,
      lastLatencyMs := 1, ts := 0 }
  { receipt, signature := Sample.signature (receiptPayload receipt) reader }

def settleBlock (periodIndex : Rat) (receipts : List (SignedReceipt Rat)) (amount : Int) :
    BlockContent Rat :=
  { accountId := "provider", index := 1, type := .storageSettle, previousHash := "", shard := 0,
    timestamp := 0, balance := 0, amount := some amount
    storage := some { periodIndex := some periodIndex, receipts := some receipts } }

/-- Three readers, one of them twice, and two of them again in the next period. -/
def settledTwice : List (BlockContent Rat) :=
  [settleBlock 0 [receiptFrom "ann" 5, receiptFrom "ben" 2, receiptFrom "cat" 1,
      receiptFrom "ann" 5] 8,
    settleBlock 1 [receiptFrom "ann" 6, receiptFrom "ben" 3, receiptFrom "cat" 4] 5]

theorem validate_settledTwice : EachSettle Sample.primitives "provider"
    (fun L block => validate Sample.primitives L block = none) new settledTwice :=
  ⟨fun _ => by decide +kernel, fun _ => by decide +kernel, trivial⟩

theorem same_bytes_paid_once_twice :
    (periodsOf "provider" settledTwice).Pairwise (fun p q => JsNumber.lt p q = true) ∧
      (((amountsOf "provider" settledTwice).sum : ℝ) : EReal) ≤
        ((∑ reader ∈ readersOf Sample.primitives "provider" settledTwice,
          largestAttested ratReading Sample.primitives "provider"
            (carried "provider" settledTwice) reader : ENNReal) : EReal) :=
  same_bytes_paid_once ratReading Sample.primitives "provider" settledTwice
    (fun _ _ => ⟨fun _ _ => trivial, fun _ _ => trivial⟩)
    (eachSettle_creditsOnce_rat "provider" settledTwice) validate_settledTwice

/-- The sum, over the readers, of the largest total that the reader attested, with its sign. -/
def signedBound (P : Primitives Rat) (pub : Hex) (blocks : List (BlockContent Rat)) : Rat :=
  let counting := (carried pub blocks).filter fun env => decide (Counts P pub env)
  ((counting.map fun env => env.receipt.reader).dedup.map fun reader =>
    ((counting.filter fun env => env.receipt.reader == reader).map
      fun env => env.receipt.bytesTotal).max?.getD 0).sum

/-- Three readers attest a byte each and a fourth attests minus five: three bytes are paid,
and the totals add up to minus two. -/
def settledWithDebt : List (BlockContent Rat) :=
  [settleBlock 0 [receiptFrom "ann" 1, receiptFrom "ben" 1, receiptFrom "cat" 1,
    receiptFrom "dan" (-5)] 3]

theorem debt_not_deducted :
    ¬ ∀ blocks : List (BlockContent Rat),
      EachSettle Sample.primitives "provider" (CreditsOnce ratReading Sample.primitives) new
        blocks →
      EachSettle Sample.primitives "provider"
        (fun L block => validate Sample.primitives L block = none) new blocks →
      (periodsOf "provider" blocks).Pairwise (fun p q => JsNumber.lt p q = true) ∧
        ((amountsOf "provider" blocks).sum : Rat) ≤
          signedBound Sample.primitives "provider" blocks := by
  intro hall
  have hvalid : EachSettle Sample.primitives "provider"
      (fun L block => validate Sample.primitives L block = none) new settledWithDebt :=
    ⟨fun _ => by decide +kernel, trivial⟩
  have hbound := (hall settledWithDebt (eachSettle_creditsOnce_rat "provider" settledWithDebt)
    hvalid).2
  have hdebt : signedBound Sample.primitives "provider" settledWithDebt <
      ((amountsOf "provider" settledWithDebt).sum : Rat) := by decide +kernel
  exact absurd hbound (not_le.mpr hdebt)

end ProviderLedger

end NeuronWeb
