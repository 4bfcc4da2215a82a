/-
  Storage/PendingReceipts: is an accepted read receipt ever lost?

  The pending receipts are kept by reader alone.  A pass puts a slice of them into the block
  of whichever account is due, and when the call has returned it clears all of them.  So
  an accepted receipt can be displaced by one of its reader for another local provider, and
  cleared without having been in a block.
-/
import NeuronWeb.Storage.Settling

set_option autoImplicit false

namespace NeuronWeb

variable {F : Type} [JsNumber F]

/-! ## Receipts and passes, interleaved at the awaits -/

/-- A running pass of `settleIfDue`. -/
structure SettlePass (F : Type) where
  now : Int
  /-- The accounts that are left. -/
  rest : List (Hex × String)
  /-- The call that is awaited. -/
  awaiting : Option (CreateResult F)

/-- The manager, its passes, and the receipts that have been accepted, oldest first. -/
structure ReceiptSession (F : Type) where
  manager : StorageManager F
  passes : List (SettlePass F)
  accepted : List (SignedReceipt F)

inductive ReceiptCall (F : Type) where
  /-- A reader hands in a receipt. -/
  | receive (env : SignedReceipt F)
  /-- The timer starts a pass. -/
  | start (now : Int)
  /-- The `n`-th pass goes on to its next account, up to the call it awaits. -/
  | visit (n : Nat) (stamp : Int)
  /-- The call that the `n`-th pass awaits has returned. -/
  | resume (n : Nat)

namespace ReceiptSession

variable (E : StorageEnv F)

/-- `acceptReadReceipt` takes the receipt. -/
def accepts (m : StorageManager F) (env : SignedReceipt F) : Bool :=
  let verified := E.verifyMsg env.signature (receiptPayload env.receipt) env.receipt.reader
  match m.inboundReceipts.record env.receipt verified with
  | .error _ => false
  | .ok _ => true

def receive (s : ReceiptSession F) (env : SignedReceipt F) : ReceiptSession F :=
  { s with
    manager := s.manager.acceptReadReceipt E env
    accepted := if accepts E s.manager env then s.accepted ++ [env] else s.accepted }

/-- The pass `p`, the `n`-th one, visits its next account. -/
def visit (s : ReceiptSession F) (n : Nat) (p : SettlePass F) (stamp : Int) : ReceiptSession F :=
  match p.awaiting, p.rest with
  | none, (pub, priv) :: rest =>
    let r := s.manager.settleAccount E p.now stamp pub priv
    let awaiting := match r.2 with
      | .skipped => none
      | .called result => some result
    { s with manager := r.1, passes := s.passes.set n { p with rest, awaiting } }
  | _, _ => s

/-- The call that `p`, the `n`-th pass, awaits has returned: a thrown one ends the pass. -/
def resume (s : ReceiptSession F) (n : Nat) (p : SettlePass F) : ReceiptSession F :=
  match p.awaiting with
  | none => s
  | some .thrown => { s with passes := s.passes.set n { p with rest := [], awaiting := none } }
  | some result =>
    { s with
      manager := s.manager.afterSettle (.called result)
      passes := s.passes.set n { p with awaiting := none } }

def step (s : ReceiptSession F) : ReceiptCall F → ReceiptSession F
  | .receive env => s.receive E env
  | .start now =>
    if s.manager.started then
      { s with passes := s.passes ++ [⟨now, s.manager.localKeys.entries, none⟩] }
    else s
  | .visit n stamp =>
    match s.passes[n]? with
    | some p => s.visit E n p stamp
    | none => s
  | .resume n =>
    match s.passes[n]? with
    | some p => s.resume n p
    | none => s

/-! ## What is owed to a receipt -/

/-- A settle block of its provider includes the receipt. -/
def Included (L : EngineLedger F) (env : SignedReceipt F) : Prop :=
  ∃ block ∈ L.getAccountChain env.receipt.provider, block.type = .storageSettle ∧
    env ∈ (block.storage.bind StoragePayload.receipts).getD []

/-- The receipt is of the same reader for the same provider. -/
def SamePair (env env' : SignedReceipt F) : Prop :=
  env'.receipt.reader = env.receipt.reader ∧ env'.receipt.provider = env.receipt.provider

/-- Every accepted receipt is included in a settle block of its provider, superseded by one
that was accepted later, or still pending. -/
def NoneLost (s : ReceiptSession F) : Prop :=
  ∀ before env after, s.accepted = before ++ env :: after →
    Included s.manager.ledger env ∨ (∃ newer ∈ after, SamePair env newer) ∨
      s.manager.pendingEnvelopes.get? env.receipt.reader = some env

/-- What a step displaces is not lost by it: a receipt takes the place of one for the same
provider, and what is cleared is in a settle block of its provider already. -/
def Displaces (s : ReceiptSession F) : ReceiptCall F → Prop
  | .receive env => accepts E s.manager env = true →
      ∀ old, s.manager.pendingEnvelopes.get? env.receipt.reader = some old →
        old.receipt.provider = env.receipt.provider ∨ Included s.manager.ledger old
  | .resume n => ∀ p block, s.passes[n]? = some p → p.awaiting = some (.created block) →
      ∀ reader old, s.manager.pendingEnvelopes.get? reader = some old →
        Included s.manager.ledger old
  | _ => True

variable {E} {s : ReceiptSession F}

omit [JsNumber F] in
theorem Included.mono {L L' : EngineLedger F} {env : SignedReceipt F}
    (hchain : ∀ x, ∀ b ∈ L.getAccountChain x, b ∈ L'.getAccountChain x) (h : Included L env) :
    Included L' env := by
  obtain ⟨block, hblock, hsettle⟩ := h
  exact ⟨block, hchain _ block hblock, hsettle⟩

theorem settleAccount_chains (m : StorageManager F) (now stamp : Int) (pub : Hex)
    (priv : String) :
    (m.settleAccount E now stamp pub priv).1.pendingEnvelopes = m.pendingEnvelopes ∧
      ∀ x, ∀ b ∈ m.ledger.getAccountChain x,
        b ∈ (m.settleAccount E now stamp pub priv).1.ledger.getAccountChain x := by
  rcases StorageManager.settleAccount_cases E m now stamp pub priv with ⟨hskip, -⟩ | ⟨hcall, -⟩
  · rw [hskip]
    exact ⟨rfl, fun _ _ hb => hb⟩
  · rw [hcall]
    refine ⟨rfl, fun x b hb => ?_⟩
    rcases EngineLedger.createStorageSettle_chains E.primitives m.ledger pub priv
        m.settlementReceipts _ _ _ stamp with ⟨-, hkept⟩ | ⟨block, -, -, -, hchain⟩
    · exact (hkept x).symm ▸ hb
    · refine (hchain x).symm ▸ ?_
      split
      · exact List.mem_append_left _ hb
      · exact hb

theorem noneLost_visit (h : NoneLost s) (n : Nat) (p : SettlePass F) (stamp : Int) :
    NoneLost (s.visit E n p stamp) := by
  unfold ReceiptSession.visit
  split
  · rename_i pub priv rest _ _
    obtain ⟨hpending, hchains⟩ := settleAccount_chains (E := E) s.manager p.now stamp pub priv
    intro before env after haccepted
    rcases h before env after haccepted with hin | hnewer | hheld
    · exact .inl (hin.mono hchains)
    · exact .inr (.inl hnewer)
    · refine .inr (.inr ?_)
      simp only [hpending]
      exact hheld
  · exact h

omit [JsNumber F] in
theorem noneLost_resume (h : NoneLost s) {n : Nat} {p : SettlePass F}
    (hcleared : ∀ block, p.awaiting = some (.created block) → ∀ reader old,
      s.manager.pendingEnvelopes.get? reader = some old → Included s.manager.ledger old) :
    NoneLost (s.resume n p) := by
  unfold ReceiptSession.resume
  split
  · exact h
  · exact h
  · rename_i result _ hawaiting
    cases result with
    | refused error => exact h
    | thrown => exact h
    | created block =>
      intro before env after haccepted
      rcases h before env after haccepted with hin | hnewer | hheld
      · exact .inl hin
      · exact .inr (.inl hnewer)
      · exact .inl (hcleared block hawaiting env.receipt.reader env hheld)

theorem append_singleton_split {α : Type} {l before after : List α} {a b : α}
    (h : l ++ [b] = before ++ a :: after) :
    (after = [] ∧ a = b) ∨ ∃ after', after = after' ++ [b] ∧ l = before ++ a :: after' := by
  rcases List.eq_nil_or_concat after with rfl | ⟨after', c, rfl⟩
  · obtain ⟨-, hlast⟩ := List.append_inj' h rfl
    exact .inl ⟨rfl, (List.singleton_injective hlast).symm⟩
  · right
    rw [List.concat_eq_append] at h ⊢
    rw [← List.cons_append, ← List.append_assoc] at h
    obtain ⟨hinit, hlast⟩ := List.append_inj' h rfl
    exact ⟨after', by rw [List.singleton_injective hlast], hinit⟩

theorem noneLost_receive (h : NoneLost s) {env : SignedReceipt F}
    (hplace : accepts E s.manager env = true → ∀ old,
      s.manager.pendingEnvelopes.get? env.receipt.reader = some old →
        old.receipt.provider = env.receipt.provider ∨ Included s.manager.ledger old) :
    NoneLost (s.receive E env) := by
  unfold ReceiptSession.receive
  cases haccepts : accepts E s.manager env with
  | false =>
    have hsame : s.manager.acceptReadReceipt E env = s.manager := by
      unfold StorageManager.acceptReadReceipt
      unfold accepts at haccepts
      simp only at haccepts ⊢
      split
      · rfl
      · rename_i hok
        rw [hok] at haccepts
        cases haccepts
    rw [hsame]
    exact h
  | true =>
    obtain ⟨inboundReceipts, hsame⟩ : ∃ inboundReceipts,
        s.manager.acceptReadReceipt E env =
          { s.manager with
            inboundReceipts
            pendingEnvelopes := s.manager.pendingEnvelopes.set env.receipt.reader env } := by
      unfold StorageManager.acceptReadReceipt
      unfold accepts at haccepts
      simp only at haccepts ⊢
      split
      · rename_i hrefused
        rw [hrefused] at haccepts
        cases haccepts
      · exact ⟨_, rfl⟩
    rw [hsame]
    intro before old after haccepted
    simp only [if_true] at haccepted ⊢
    rcases append_singleton_split haccepted with ⟨-, rfl⟩ | ⟨after', rfl, hinit⟩
    · exact .inr (.inr (JsMap.get?_set_self _ _ _))
    · rcases h before old after' hinit with hin | ⟨newer, hnewer, hpair⟩ | hheld
      · exact .inl hin
      · exact .inr (.inl ⟨newer, List.mem_append_left _ hnewer, hpair⟩)
      · by_cases hreader : env.receipt.reader = old.receipt.reader
        · rcases hplace haccepts old (hreader ▸ hheld) with hprovider | hin
          · refine .inr (.inl ⟨env, List.mem_append_right _ (List.mem_singleton_self _), ?_⟩)
            exact ⟨hreader, hprovider.symm⟩
          · exact .inl hin
        · exact .inr (.inr ((JsMap.get?_set_ne _ env hreader).trans hheld))

theorem noneLost_step (call : ReceiptCall F) (h : NoneLost s) (hcall : Displaces E s call) :
    NoneLost (step E s call) := by
  cases call with
  | receive env => exact noneLost_receive h hcall
  | start now =>
    simp only [step]
    split
    · exact h
    · exact h
  | visit n stamp =>
    simp only [step]
    cases s.passes[n]? with
    | none => exact h
    | some p => exact noneLost_visit h n p stamp
  | resume n =>
    simp only [step]
    cases hpass : s.passes[n]? with
    | none => exact h
    | some p => exact noneLost_resume h fun block => hcall p block hpass

/-- In a run whose steps displace nothing unsettled, every accepted receipt is included,
superseded or pending in every state. -/
theorem noneLost_always (E : StorageEnv F) (m : StorageManager F) (calls : List (ReceiptCall F))
    (hcalls : Run.StepsMeet (step E) (Displaces E) ⟨m, [], []⟩ calls) :
    Run.Always (step E) NoneLost ⟨m, [], []⟩ calls := by
  refine Run.always_of_invariant (I := NoneLost) (C := Displaces E)
    (fun _ call h hcall => noneLost_step call h hcall) (fun _ h => h) ?_ hcalls
  intro before env after haccepted
  exact absurd haccepted.symm (by simp)

/-! ## Two local providers -/

section Examples

open StorageManager.Sample

instance (L : EngineLedger Rat) (env : SignedReceipt Rat) : Decidable (Included L env) :=
  inferInstanceAs (Decidable (∃ _ ∈ _, _ ∧ _))

theorem displaces_receive_of_fresh {s : ReceiptSession Rat} {receipt : SignedReceipt Rat}
    (h : (s.manager.pendingEnvelopes.get? receipt.receipt.reader).isNone = true) :
    Displaces env s (.receive receipt) := by
  intro _ old hold
  rw [hold] at h
  cases h

theorem displaces_resume_of_included {s : ReceiptSession Rat} {n : Nat}
    (h : ∀ e ∈ s.manager.pendingEnvelopes.entries, Included s.manager.ledger e.2) :
    Displaces env s (.resume n) := by
  intro p block _ _ reader old hold
  exact h (reader, old) ((JsMap.get?_eq_some_iff _ reader old).mp hold)

/-- A node with one provider, whose key the engine can read. -/
def oneProvider : StorageManager Rat := idle "desk" (JsMap.empty.set "aa" "aa")

/-- Three readers hand in their receipts, and a pass settles them. -/
def settledRun : List (ReceiptCall Rat) :=
  [.receive (readBy "bb" "aa"), .receive (readBy "cc" "aa"), .receive (readBy "dd" "aa"),
    .start 30000, .visit 0 30000, .resume 0]

theorem noneLost_always_settledRun :
    Run.StepsMeet (step env) (Displaces env) ⟨oneProvider, [], []⟩ settledRun ∧
      Run.Always (step env) NoneLost ⟨oneProvider, [], []⟩ settledRun := by
  have hmeet : Run.StepsMeet (step env) (Displaces env) ⟨oneProvider, [], []⟩ settledRun :=
    ⟨displaces_receive_of_fresh (by decide +kernel),
      displaces_receive_of_fresh (by decide +kernel),
      displaces_receive_of_fresh (by decide +kernel), trivial, trivial,
      displaces_resume_of_included (by decide +kernel), trivial⟩
  exact ⟨hmeet, noneLost_always env oneProvider settledRun hmeet⟩

/-- One reader reads from two providers on one node, and hands each its receipt. -/
def twoProviderRun : List (ReceiptCall Rat) :=
  [.receive (readBy "bb" "aa"), .receive (readBy "bb" "ab")]

/-- The receipt for the second provider displaces the one for the first. -/
theorem receipt_for_other_provider_lost :
    ¬ ∀ (E : StorageEnv Rat) (m : StorageManager Rat) (calls : List (ReceiptCall Rat)),
      Run.Always (step E) NoneLost ⟨m, [], []⟩ calls := by
  intro hall
  let node := idle "desk" ((JsMap.empty.set "aa" appKey).set "ab" appKey)
  have hfinal := (hall env node twoProviderRun).at_final
  have haccepted : (Run.final (step env) ⟨node, [], []⟩ twoProviderRun).accepted =
      [] ++ readBy "bb" "aa" :: [readBy "bb" "ab"] := by decide +kernel
  have hexcluded : ¬ Included (Run.final (step env) ⟨node, [], []⟩ twoProviderRun).manager.ledger
      (readBy "bb" "aa") := by decide +kernel
  have hdisplaced : (Run.final (step env) ⟨node, [], []⟩
      twoProviderRun).manager.pendingEnvelopes.get? "bb" ≠ some (readBy "bb" "aa") := by
    decide +kernel
  rcases hfinal [] _ _ haccepted with hin | ⟨newer, hnewer, hpair⟩ | hheld
  · exact hexcluded hin
  · rw [List.mem_singleton.mp hnewer] at hpair
    exact absurd hpair.2 (by decide)
  · exact hdisplaced hheld

end Examples

end ReceiptSession

end NeuronWeb
