/-
  Ledger/FrozenInert: what a frozen account can still do.

  The test for a freeze stands in most entry points and is missing in five: sending,
  receiving, the two storage calls that close a registration, and opening an account whose
  chain has been forgotten.  A verified block of a frozen account is also restored, and the
  transfer it makes is offered again.
-/
import NeuronWeb.Ledger.Outcome
import NeuronWeb.Ledger.Sample

set_option autoImplicit false

namespace NeuronWeb.EngineLedger

variable {F : Type}

/-- No block is appended to the chain of an account that is frozen. -/
def ChainsInert (L : EngineLedger F) (_ : Call F) (L' : EngineLedger F) : Prop :=
  ∀ x, L.equivocated.has x = true → L'.getAccountChain x <+: L.getAccountChain x

/-- Nothing is on offer from a frozen account. -/
structure OffersInert (L : EngineLedger F) : Prop where
  sends : ∀ hash s, L.unclaimedSends.get? hash = some s → L.equivocated.has s.fromPub = false
  nfts : ∀ hash t, L.unclaimedNftTransfers.get? hash = some t →
    L.equivocated.has t.fromPub = false

variable [JsNumber F]

/-- No call on behalf of a frozen account gets past the guards that the source has, and no
transfer of a frozen account is restored. -/
def InertCall (P : Primitives F) (cfg : LedgerConfig) (L : EngineLedger F) : Call F → Prop
  | .openAccount pub _ nullifier attestations _ _ => ∀ identity,
      OpenAdmitted P cfg L pub nullifier attestations identity → L.equivocated.has pub = false
  | .restoreVerifiedBlock block =>
    OffersOnRestore P L block → L.equivocated.has block.accountId = false
  | c => ∀ pub priv now h head content effect, c.author = some (pub, priv, now) →
      L.held.get? pub = some h → h.chain.getLast? = some head →
      Draft P L pub priv head now c content effect → L.equivocated.has pub = false

/-- The calls that can write for a frozen account: all others test the freeze themselves, or
write for nobody. -/
def Call.skipsFreeze : Call F → Bool
  | .openAccount .. | .createSend .. | .createReceive .. | .createStorageDeregister ..
  | .createStorageSettle .. | .restoreVerifiedBlock _ => true
  | _ => false

variable {P : Primitives F} {cfg : LedgerConfig} {L : EngineLedger F} {c : Call F}

theorem inertCall_of_skipsFreeze (h : c.skipsFreeze = false) : InertCall P cfg L c := by
  cases c
  case openAccount => cases h
  case restoreVerifiedBlock => cases h
  all_goals
    intro pub priv now held head content effect author stored last draft
    cases draft <;> first | assumption | cases h

theorem Origin.notFrozen {b : Block F} (h : Origin P cfg L c b) (hc : InertCall P cfg L c) :
    L.equivocated.has b.accountId = false := by
  cases h with
  | @drafted c pub priv now h head b effect author stored last draft =>
    rw [draft.header.1]
    cases c
    case openAccount => cases author
    case restoreVerifiedBlock => cases author
    all_goals exact hc pub priv now h head _ effect author stored last draft
  | opened identity admitted account type =>
    rw [account]
    exact hc identity admitted
  | genesis authentic opens => exact authentic.notFrozen
  | linked authentic links checked root => exact authentic.notFrozen

theorem MayOffer.notFrozen {x : Hex} (h : MayOffer P L c x) (hc : InertCall P cfg L c) :
    L.equivocated.has x = false := by
  rcases h with h | ⟨block, rfl, rfl, hoffers⟩
  · exact h
  · exact hc hoffers

theorem chainsInert_step (hc : InertCall P cfg L c) : ChainsInert L c (step P cfg L c) := by
  intro x hx
  cases step_outcome P cfg L c with
  | quiet h => exact h.chain x
  | appended b origin h =>
    have hne : b.accountId ≠ x := by
      rintro rfl
      rw [origin.notFrozen hc] at hx
      cases hx
    have hchain := h.chain x
    rw [if_neg hne] at hchain
    exact hchain ▸ List.prefix_rfl
  | froze h => exact h.chain x ▸ List.prefix_rfl
  | reset h => exact h ▸ List.nil_prefix

theorem offersInert_step (hL : OffersInert L) (hc : InertCall P cfg L c) :
    OffersInert (step P cfg L c) := by
  cases step_outcome P cfg L c with
  | quiet h =>
    refine ⟨fun hash s hs => ?_, fun hash t ht => ?_⟩
    · rw [h.equivocated]
      rcases h.sends hash s hs with hold | hnew
      · exact hL.sends hash s hold
      · exact hnew.notFrozen hc
    · rw [h.equivocated]
      rcases h.nfts hash t ht with hold | ⟨hnew, _⟩
      · exact hL.nfts hash t hold
      · exact hnew.notFrozen hc
  | appended b origin h =>
    refine ⟨fun hash s hs => ?_, fun hash t ht => ?_⟩
    · rw [h.equivocated]
      rcases h.effect.sends hash s hs with hold | hown
      · exact hL.sends hash s hold
      · rw [hown]
        exact origin.notFrozen hc
    · rw [h.equivocated]
      rcases h.effect.nfts hash t ht with ⟨hold, _⟩ | ⟨hown, _⟩
      · exact hL.nfts hash t hold
      · rw [hown]
        exact origin.notFrozen hc
  | froze h =>
    refine ⟨fun hash s hs => ?_, fun hash t ht => ?_⟩
    · obtain ⟨hold, hback⟩ := h.sends hash s hs
      have hfree := hL.sends hash s hold
      exact Bool.eq_false_iff.mpr fun hnow => by simp [hback hnow] at hfree
    · obtain ⟨hold, hback⟩ := h.nfts hash t ht
      have hfree := hL.nfts hash t hold
      exact Bool.eq_false_iff.mpr fun hnow => by simp [hback hnow] at hfree
  | reset h =>
    rw [h]
    exact ⟨fun _ _ hs => by simp [reset, new] at hs, fun _ _ ht => by simp [reset, new] at ht⟩

/-- In every run whose calls respect the freezes, a frozen account's chain never grows and
nothing is ever on offer from it. -/
theorem frozen_inert (P : Primitives F) (cfg : LedgerConfig) (calls : List (Call F))
    (hcalls : Run.StepsMeet (step P cfg) (InertCall P cfg) (new P) calls) :
    Run.EveryStep (step P cfg) ChainsInert (new P) calls ∧
      Run.Always (step P cfg) OffersInert (new P) calls := by
  constructor
  · exact Run.everyStep_of_invariant (I := fun _ => True) (fun _ _ _ _ => trivial)
      (fun _ _ _ hc => chainsInert_step hc) trivial hcalls
  · exact Run.always_of_invariant (fun _ _ hL hc => offersInert_step hL hc) (fun _ h => h)
      ⟨fun _ _ h => by simp [new] at h, fun _ _ h => by simp [new] at h⟩ hcalls

/-- Alice opens her account, knows Bob, and is frozen on two blocks she has signed; then
she makes one more call. -/
def frozenRun (last : Call Rat) : List (Call Rat) :=
  let opened : Call Rat := .openAccount "alice" "alice" "nullifier" [] false 0
  let L := step Sample.primitives Sample.config (new Sample.primitives) opened
  let a := Sample.continuing L (Sample.header L "alice")
  let b := Sample.continuing L { (Sample.header L "alice") with timestamp := 1 }
  [opened, .registerAccount ⟨"bob", "bob-key"⟩, .applyEvidenceFromBlocks a b, last]

/-- A run that freezes an account and then offers it an update, which is refused. -/
theorem frozen_inert_update :
    let calls := frozenRun (.createUpdate "alice" [("k", "v")] "alice" 2)
    Run.EveryStep (step Sample.primitives Sample.config) ChainsInert (new Sample.primitives)
        calls ∧
      Run.Always (step Sample.primitives Sample.config) OffersInert (new Sample.primitives)
        calls := by
  intro calls
  refine frozen_inert Sample.primitives Sample.config calls ⟨?_, ?_, ?_, ?_, trivial⟩
  · exact fun _ _ => by decide +kernel
  · exact inertCall_of_skipsFreeze rfl
  · exact inertCall_of_skipsFreeze rfl
  · exact inertCall_of_skipsFreeze rfl

/-- A frozen account sends: its chain grows, and the payment is on offer. -/
theorem frozen_account_sends : ¬ ∀ calls : List (Call Rat),
    Run.EveryStep (step Sample.primitives Sample.config) ChainsInert (new Sample.primitives)
        calls ∧
      Run.Always (step Sample.primitives Sample.config) OffersInert (new Sample.primitives)
        calls := by
  intro hall
  have hinert := (hall (frozenRun (.createSend "alice" "bob-key" 5 "alice" 2))).1.2.2.2.1
  have hlength := (hinert "alice" (by decide +kernel)).length_le
  revert hlength
  decide +kernel

end NeuronWeb.EngineLedger
