/-
  Ledger/EvidenceSoundness: who can be frozen.

  A freeze acts on the `accountId` of the evidence. Evidence the ledger builds itself takes that
  field from the two blocks; evidence handed to `applyEvidence` keeps the field its sender
  wrote, which no check compares with the blocks.
-/
import NeuronWeb.Consensus.FinalitySafety
import NeuronWeb.Ledger.Steps
import NeuronWeb.Ledger.Sample

set_option autoImplicit false

namespace NeuronWeb.EngineLedger

variable {F : Type}

/-! ## Freezing -/

theorem freezeEquivocator_get? (L : EngineLedger F) (ev : DoubleSpendEvidence F) (x : Hex) :
    (L.freezeEquivocator ev).1.equivocated.get? x =
      if L.equivocated.has ev.accountId = false ∧ ev.accountId = x then some ev
      else L.equivocated.get? x := by
  unfold freezeEquivocator
  cases hfrozen : L.equivocated.has ev.accountId with
  | true => simp
  | false => simp [JsMap.get?_set]

theorem flagFork_get? (L : EngineLedger F) (a b : Block F) (x : Hex) :
    (L.flagFork a b).equivocated.get? x =
      match proveDoubleSpend a b with
      | some ev =>
        if L.equivocated.has ev.accountId = false ∧ ev.accountId = x then some ev
        else L.equivocated.get? x
      | none => L.equivocated.get? x := by
  unfold flagFork flagEquivocation indexBlock
  cases proveDoubleSpend a b with
  | none => rfl
  | some ev => exact freezeEquivocator_get? L ev x

theorem isSlashed_freezeEquivocator (L : EngineLedger F) (ev : DoubleSpendEvidence F)
    (x : Hex) : (L.freezeEquivocator ev).1.validatorRegistry.isSlashed x = true →
      L.validatorRegistry.isSlashed x = true ∨
        (L.freezeEquivocator ev).1.equivocated.has x = true := by
  unfold freezeEquivocator
  split
  · exact .inl
  · intro h
    rw [ValidatorRegistry.isSlashed_slash, Bool.or_eq_true, decide_eq_true_eq] at h
    rcases h with rfl | h
    · exact .inr (by simp [JsMap.has_set])
    · exact .inl h

/-- A call that may freeze one account: earlier freezes stand, and whom it slashes it has
frozen. -/
structure FreezesOnly (L L' : EngineLedger F) : Prop where
  kept : ∀ x, L.equivocated.has x = true → L'.equivocated.get? x = L.equivocated.get? x
  committee : L'.committee = L.committee
  slashed : ∀ x, L'.validatorRegistry.isSlashed x = true →
    L.validatorRegistry.isSlashed x = true ∨ L'.equivocated.has x = true

theorem SameConsensus.freezesOnly {L L' : EngineLedger F} (h : SameConsensus L L') :
    FreezesOnly L L' :=
  ⟨fun _ _ => by rw [h.equivocated], h.committee, fun x hx => .inl (by
    rwa [h.validatorRegistry] at hx)⟩

theorem freezeEquivocator_freezesOnly (L : EngineLedger F) (ev : DoubleSpendEvidence F) :
    FreezesOnly L (L.freezeEquivocator ev).1 where
  kept x hx := by
    rw [freezeEquivocator_get?, if_neg]
    rintro ⟨hfresh, rfl⟩
    rw [hx] at hfresh
    cases hfresh
  committee := by unfold freezeEquivocator; split <;> rfl
  slashed x hx := isSlashed_freezeEquivocator L ev x hx

theorem flagFork_freezesOnly (L : EngineLedger F) (a b : Block F) :
    FreezesOnly L (L.flagFork a b) := by
  have hindexed : ∀ L' : EngineLedger F, FreezesOnly L L' →
      FreezesOnly L (L'.indexBlock b) := fun _ h => ⟨h.kept, h.committee, h.slashed⟩
  unfold flagFork flagEquivocation
  refine hindexed _ ?_
  split
  · exact freezeEquivocator_freezesOnly L _
  · exact (SameConsensus.refl L).freezesOnly

/-- Nobody is frozen or unfrozen, and an account is slashed only as a voter that the
committee has recorded as equivocating. -/
structure KeepsVerdicts (L L' : EngineLedger F) : Prop where
  equivocated : L'.equivocated = L.equivocated
  equivocs : L.committee.equivocs ⊆ L'.committee.equivocs
  slashed : ∀ x, L'.validatorRegistry.isSlashed x = true →
    L.validatorRegistry.isSlashed x = true ∨ ∃ e ∈ L'.committee.equivocs, e.voterId = x

theorem SameConsensus.keepsVerdicts {L L' : EngineLedger F} (h : SameConsensus L L') :
    KeepsVerdicts L L' where
  equivocated := h.equivocated
  equivocs := by rw [h.committee]; exact List.Subset.refl _
  slashed x hx := .inl (by rwa [h.validatorRegistry] at hx)

theorem keepsVerdicts_of_registry {L L' : EngineLedger F}
    (hequivocated : L'.equivocated = L.equivocated)
    (hequivocs : L'.committee.equivocs = L.committee.equivocs)
    (hslashed : ∀ x, L'.validatorRegistry.isSlashed x = L.validatorRegistry.isSlashed x) :
    KeepsVerdicts L L' where
  equivocated := hequivocated
  equivocs := by rw [hequivocs]; exact List.Subset.refl _
  slashed x hx := .inl (hslashed x ▸ hx)

/-- A call that can freeze an account or lift its freeze. -/
def Call.judges : Call F → Bool
  | .addBlock .. | .applyEvidence _ | .applyEvidenceFromBlocks .. | .reset => true
  | _ => false

/-! ## Sound evidence -/

variable (P : Primitives F)

/-- Whoever the call newly freezes has signed two blocks at one height: the blocks of the
recorded evidence. -/
def FreezesSoundly (L : EngineLedger F) (_ : Call F) (L' : EngineLedger F) : Prop :=
  ∀ x ev, L.equivocated.has x = false → L'.equivocated.get? x = some ev →
    DoubleSigned P x ev.a ev.b

/-- Evidence from outside names the account of its own blocks, and the held block a fork
is seen against carries its account's signature. -/
def SoundEvidence (L : EngineLedger F) : Call F → Prop
  | .applyEvidence ev => verifyDoubleSpend P ev = true →
      L.equivocated.has ev.accountId = false → ev.accountId = ev.a.accountId
  | .addBlock block _ => ∀ h existing ev, Authentic P L block → Forks L h existing block →
      proveDoubleSpend existing block = some ev → verifyBlock P existing = true
  | _ => True

/-- Every frozen account is frozen on the two blocks of its evidence, and a slashed account
is frozen or has voted for two siblings. -/
structure PunishedForCause (P : Primitives F) (L : EngineLedger F) : Prop where
  frozen : ∀ x ev, L.equivocated.get? x = some ev → DoubleSigned P x ev.a ev.b
  slashed : ∀ x, L.validatorRegistry.isSlashed x = true →
    L.equivocated.has x = true ∨ ∃ e ∈ L.committee.equivocs, e.voterId = x

variable {P}

theorem freezesSoundly_of_equivocated_eq {L L' : EngineLedger F} {c : Call F}
    (h : L'.equivocated = L.equivocated) : FreezesSoundly P L c L' := by
  intro x ev hfresh hget
  rw [h] at hget
  rw [JsMap.has_eq_false_iff, hget] at hfresh
  cases hfresh

theorem doubleSigned_of_proveDoubleSpend {L : EngineLedger F} {existing block : Block F}
    {ev : DoubleSpendEvidence F} (authentic : Authentic P L block)
    (hprove : proveDoubleSpend existing block = some ev)
    (hverify : verifyBlock P existing = true) :
    DoubleSigned P ev.accountId ev.a ev.b := by
  obtain ⟨rfl, haccount, hhash, hindex, hprev⟩ := proveDoubleSpend_eq_some hprove
  exact ⟨rfl, haccount.symm, hhash, hindex, hprev, hverify,
    (verifyBlock_iff P block).mpr ⟨authentic.hash, authentic.signature⟩⟩

theorem applyEvidence_freezesOnly (L : EngineLedger F) (ev : DoubleSpendEvidence F) :
    FreezesOnly L (applyEvidence P L ev).1 := by
  unfold applyEvidence
  split
  · exact freezeEquivocator_freezesOnly L ev
  · exact (SameConsensus.refl L).freezesOnly

theorem applyEvidence_freezesSoundly_iff (L : EngineLedger F) (ev : DoubleSpendEvidence F) :
    FreezesSoundly P L (.applyEvidence ev) (applyEvidence P L ev).1 ↔
      SoundEvidence P L (.applyEvidence ev) := by
  unfold applyEvidence
  cases hverify : verifyDoubleSpend P ev with
  | false =>
    simp only [SoundEvidence, hverify, Bool.false_eq_true, if_false, false_implies, iff_true]
    exact freezesSoundly_of_equivocated_eq rfl
  | true =>
    have hsigned := (verifyDoubleSpend_iff P ev).mp hverify
    simp only [if_true, SoundEvidence, hverify, true_implies]
    constructor
    · intro hsound hfresh
      have hnew := hsound ev.accountId ev hfresh (by
        rw [freezeEquivocator_get?, if_pos ⟨hfresh, rfl⟩])
      exact hnew.account_a.symm
    · intro hnames x ev' hfresh hget
      rw [freezeEquivocator_get?] at hget
      split at hget
      · rename_i hnew
        cases hget
        rw [← hnew.2, hnames hnew.1]
        exact hsigned
      · rw [JsMap.has_eq_false_iff, hget] at hfresh
        cases hfresh

theorem applyEvidenceFromBlocks_freezesSoundly (L : EngineLedger F) (a b : Block F) :
    FreezesSoundly P L (.applyEvidenceFromBlocks a b)
      (applyEvidenceFromBlocks P L a b).1 := by
  unfold applyEvidenceFromBlocks
  cases hprove : proveDoubleSpend a b with
  | none => exact freezesSoundly_of_equivocated_eq rfl
  | some ev =>
    have hiff := applyEvidence_freezesSoundly_iff (P := P) L ev
    exact hiff.mpr fun _ _ => accountId_of_proveDoubleSpend hprove

theorem FreezesOnly.punishedForCause {L L' : EngineLedger F} {c : Call F}
    (h : FreezesOnly L L') (hsound : FreezesSoundly P L c L')
    (hL : PunishedForCause P L) : PunishedForCause P L' where
  frozen x ev hget := by
    cases hfrozen : L.equivocated.has x with
    | false => exact hsound x ev hfrozen hget
    | true => exact hL.frozen x ev (h.kept x hfrozen ▸ hget)
  slashed x hx := by
    rcases h.slashed x hx with hold | hnew
    · rw [h.committee]
      refine (hL.slashed x hold).imp_left fun hfrozen => ?_
      rw [JsMap.has, h.kept x hfrozen]
      exact hfrozen
    · exact .inl hnew

theorem KeepsVerdicts.punishedForCause {L L' : EngineLedger F} (h : KeepsVerdicts L L')
    (hL : PunishedForCause P L) : PunishedForCause P L' where
  frozen x ev hget := hL.frozen x ev (h.equivocated ▸ hget)
  slashed x hx := by
    rw [h.equivocated]
    rcases h.slashed x hx with hold | hvoted
    · exact (hL.slashed x hold).imp_right fun ⟨e, he, hvoter⟩ => ⟨e, h.equivocs he, hvoter⟩
    · exact .inr hvoted

/-! ## Calls that judge nobody -/

theorem isSlashed_foldl_creditActivity (active : List Hex) (r : ValidatorRegistry) (x : Hex) :
    (active.foldl (fun r id => r.creditActivity id 1) r).isSlashed x = r.isSlashed x := by
  induction active generalizing r with
  | nil => rfl
  | cons id rest ih => rw [List.foldl_cons, ih, ValidatorRegistry.isSlashed_creditActivity]

theorem equivocs_registerVotedBlock (L : EngineLedger F) (blockHash : Hex) :
    (L.registerVotedBlock blockHash).equivocs = L.committee.equivocs := by
  unfold registerVotedBlock
  split
  · split
    · rfl
    · unfold CommitteeFinality.registerBlock
      split <;> rfl
  · rfl

theorem openAccount_keepsVerdicts (cfg : LedgerConfig) (L : EngineLedger F)
    (pub priv nullifier : Hex) (attestations : List TypedAttestation) (bond : Bool) (now : Int) :
    KeepsVerdicts L (openAccount P cfg L pub priv nullifier attestations bond now).1 := by
  have outcome := openAccount_outcome P cfg L pub priv nullifier attestations bond now
  generalize openAccount P cfg L pub priv nullifier attestations bond now = result at outcome
  cases outcome with
  | refused error => exact (SameConsensus.refl L).keepsVerdicts
  | thrown identity => exact keepsVerdicts_of_registry rfl rfl fun _ => rfl
  | opened identity shard acc block admitted created =>
    simp only
    split
    · obtain ⟨_, h, hslashed⟩ := bondStake_eq
        (({ L with identity }.hold pub ⟨[block], acc⟩).indexBlock block) pub (some MINT)
      rw [h]
      exact keepsVerdicts_of_registry rfl rfl hslashed
    · exact keepsVerdicts_of_registry rfl rfl fun _ => rfl

variable [JsNumber F] (cfg : LedgerConfig)

section

variable (L : EngineLedger F)

theorem advanceEpoch_keepsVerdicts (betas : List Hex)
    (active : Option (List Hex)) : KeepsVerdicts L (advanceEpoch P L betas active).1 := by
  unfold advanceEpoch
  simp only
  split
  · exact (SameConsensus.refl L).keepsVerdicts
  · exact keepsVerdicts_of_registry rfl
      (CommitteeFinality.equivocs_pruneStale L.committee (L.epoch + 1) 2)
      (isSlashed_foldl_creditActivity _ _)

theorem applyCommitteeVote_keepsVerdicts (vote : CommitteeVote) :
    KeepsVerdicts L (applyCommitteeVote P L vote).1 := by
  have hequivocs := CommitteeFinality.applyVote_equivocs P committeeParams
    L.voteContext (L.registerVotedBlock vote.blockHash)
    vote
  rw [equivocs_registerVotedBlock] at hequivocs
  unfold applyCommitteeVote
  simp only
  generalize CommitteeFinality.applyVote P committeeParams L.voteContext
    (L.registerVotedBlock vote.blockHash) vote = result at hequivocs
  cases hanswer : result.2.bind VoteResult.equivocation with
  | none =>
    simp only [hanswer, Option.toList_none, List.append_nil] at hequivocs
    exact keepsVerdicts_of_registry rfl hequivocs fun _ => rfl
  | some e =>
    simp only [hanswer, Option.toList_some] at hequivocs
    refine ⟨rfl, ?_, fun x hx => ?_⟩
    · simp [hequivocs]
    · simp only [ValidatorRegistry.isSlashed_slash, Bool.or_eq_true, decide_eq_true_eq] at hx
      rcases hx with rfl | hx
      · exact .inr ⟨e, by simp [hequivocs], rfl⟩
      · exact .inl hx

theorem step_keepsVerdicts {c : Call F} (hc : c.judges = false) :
    KeepsVerdicts L (step P cfg L c) := by
  cases hauthor : c.author with
  | some author =>
    obtain ⟨pub, priv, now⟩ := author
    obtain ⟨r, hstep, outcome⟩ := step_of_author P cfg L hauthor
    rw [hstep]
    exact outcome.sameConsensus.keepsVerdicts
  | none =>
    cases hclerical : c.clerical with
    | true =>
      have hsame := step_clerical P cfg L hclerical
      exact keepsVerdicts_of_registry hsame.equivocated (by rw [hsame.committee])
        fun _ => by rw [hsame.validatorRegistry]
    | false =>
      cases c
      case openAccount => exact openAccount_keepsVerdicts cfg L _ _ _ _ _ _
      case bondStake pub amount =>
        obtain ⟨_, h, hslashed⟩ := bondStake_eq L pub amount
        exact keepsVerdicts_of_registry (by simp [step, h]) (by simp [step, h])
          fun x => by simp [step, h, hslashed]
      case applyCommitteeVote vote => exact applyCommitteeVote_keepsVerdicts L vote
      case advanceEpoch betas active => exact advanceEpoch_keepsVerdicts L betas active
      case setDiscoveredProviders => exact keepsVerdicts_of_registry rfl rfl fun _ => rfl
      case purgeAccount => exact keepsVerdicts_of_registry rfl rfl fun _ => rfl
      all_goals simp [Call.author, Call.judges, Call.clerical] at hauthor hc hclerical

/-! ## One call -/

theorem addBlock_freezesOnly (block : Block F) (now : Int) :
    FreezesOnly L (addBlock P L block now).1 := by
  have outcome := addBlock_outcome P L block now
  generalize addBlock P L block now = result at outcome
  cases outcome with
  | unchanged r => exact (SameConsensus.refl L).freezesOnly
  | forked h existing error authentic forks => exact flagFork_freezesOnly L existing block
  | emptied r authentic opens refused => exact ⟨fun _ _ => rfl, rfl, fun _ h => .inl h⟩
  | opened acc authentic opens root =>
    obtain ⟨hequivocated, hregistry, hcommittee⟩ := appendForeign_sameConsensus P
      (L.hold block.accountId ⟨[], []⟩) ⟨[], []⟩ acc block now
    exact SameConsensus.freezesOnly ⟨hequivocated, hregistry, hcommittee⟩
  | extended h head acc authentic links checked root =>
    exact (appendForeign_sameConsensus P L h acc block now).freezesOnly

theorem addBlock_freezesSoundly_iff (block : Block F) (now : Int) :
    FreezesSoundly P L (.addBlock block now) (addBlock P L block now).1 ↔
      SoundEvidence P L (.addBlock block now) := by
  constructor
  · intro hsound h existing ev authentic forks hprove
    obtain ⟨error, hadd⟩ := addBlock_forks now authentic forks
    obtain ⟨hev, haccount, _⟩ := proveDoubleSpend_eq_some hprove
    have hfresh : L.equivocated.has ev.accountId = false := by
      rw [hev]
      exact haccount ▸ authentic.notFrozen
    have hnew := hsound ev.accountId ev hfresh (by
      rw [hadd, flagFork_get?, hprove]
      exact if_pos ⟨hfresh, rfl⟩)
    rw [hev] at hnew
    exact hnew.verify_a
  · intro hverified
    have outcome := addBlock_outcome P L block now
    generalize addBlock P L block now = result at outcome
    cases outcome with
    | unchanged r => exact freezesSoundly_of_equivocated_eq rfl
    | emptied r authentic opens refused => exact freezesSoundly_of_equivocated_eq rfl
    | opened acc authentic opens root => exact freezesSoundly_of_equivocated_eq (by simp [hold])
    | extended h head acc authentic links checked root =>
      exact freezesSoundly_of_equivocated_eq (by simp)
    | forked h existing error authentic forks =>
      intro x ev hfresh hget
      rw [flagFork_get?] at hget
      cases hprove : proveDoubleSpend existing block with
      | none =>
        simp only [hprove] at hget
        rw [JsMap.has_eq_false_iff, hget] at hfresh
        cases hfresh
      | some ev' =>
        simp only [hprove] at hget
        split at hget
        · rename_i hnew
          cases hget
          rw [← hnew.2]
          exact doubleSigned_of_proveDoubleSpend authentic hprove
            (hverified h existing ev authentic forks hprove)
        · rw [JsMap.has_eq_false_iff, hget] at hfresh
          cases hfresh

theorem freezesSoundly_iff (c : Call F) :
    FreezesSoundly P L c (step P cfg L c) ↔ SoundEvidence P L c := by
  cases hc : c.judges with
  | false =>
    refine iff_of_true
      (freezesSoundly_of_equivocated_eq (step_keepsVerdicts cfg L hc).equivocated) ?_
    cases c <;> trivial
  | true =>
    cases c
    case applyEvidence ev => exact applyEvidence_freezesSoundly_iff L ev
    case applyEvidenceFromBlocks a b =>
      exact iff_of_true (applyEvidenceFromBlocks_freezesSoundly L a b) trivial
    case addBlock block now => exact addBlock_freezesSoundly_iff L block now
    case reset =>
      refine iff_of_true (fun x ev _ hget => ?_) trivial
      simp [step, reset, new] at hget
    all_goals cases hc

theorem punishedForCause_step (c : Call F)
    (hL : PunishedForCause P L) (hc : SoundEvidence P L c) :
    PunishedForCause P (step P cfg L c) := by
  have hsound := (freezesSoundly_iff cfg L c).mpr hc
  cases hjudges : c.judges with
  | false => exact (step_keepsVerdicts cfg L hjudges).punishedForCause hL
  | true =>
    cases c
    case addBlock block now =>
      exact (addBlock_freezesOnly L block now).punishedForCause hsound hL
    case applyEvidence ev =>
      exact (applyEvidence_freezesOnly L ev).punishedForCause hsound hL
    case applyEvidenceFromBlocks a b =>
      refine FreezesOnly.punishedForCause ?_ hsound hL
      simp only [step, applyEvidenceFromBlocks]
      split
      · exact applyEvidence_freezesOnly L _
      · exact (SameConsensus.refl L).freezesOnly
    case reset =>
      exact ⟨fun x ev h => by simp [step, reset, new] at h,
        fun x h => by simp [step, reset, new] at h⟩
    all_goals cases hjudges

end

/-! ## Every run -/

/-- Over every run: each newly frozen account has signed two blocks at one height exactly
when all evidence is sound, and then nobody is ever frozen or slashed without cause. -/
theorem frozen_for_cause (P : Primitives F) (cfg : LedgerConfig) (calls : List (Call F)) :
    (Run.EveryStep (step P cfg) (FreezesSoundly P) (new P) calls ↔
      Run.StepsMeet (step P cfg) (SoundEvidence P) (new P) calls) ∧
    (Run.StepsMeet (step P cfg) (SoundEvidence P) (new P) calls →
      Run.Always (step P cfg) (PunishedForCause P) (new P) calls) := by
  constructor
  · exact Run.everyStep_iff_stepsMeet (I := fun _ => True) (fun _ _ _ => trivial)
      (fun L c _ => freezesSoundly_iff cfg L c) trivial
  · exact Run.always_of_invariant (I := PunishedForCause P) (punishedForCause_step cfg)
      (fun _ h => h) ⟨fun x ev h => by simp [new] at h,
        fun x h => by simp [new] at h⟩

/-- Alice opens her account and signs two blocks after it; the evidence against her is sent
in with Bob's name on it. -/
def misnamedEvidenceRun : List (Call Rat) :=
  let opened : Call Rat := .openAccount "alice" "alice" "nullifier" [] false 0
  let L := step Sample.primitives Sample.config (new Sample.primitives) opened
  let a := Sample.continuing L (Sample.header L "alice")
  let b := Sample.continuing L { (Sample.header L "alice") with timestamp := 1 }
  [opened, .applyEvidence ⟨"bob", a.index, a.previousHash, a, b⟩]

/-- Evidence of two genuine blocks freezes whichever account its sender names. -/
theorem misnamed_evidence_freezes : ¬ ∀ calls : List (Call Rat),
    Run.EveryStep (step Sample.primitives Sample.config) (FreezesSoundly Sample.primitives)
      (new Sample.primitives) calls := by
  intro hall
  have hsound := (hall misnamedEvidenceRun).2.1
  have hsigned := hsound "bob" _ (by decide +kernel)
    (Option.eq_some_of_isSome (by decide +kernel))
  exact absurd hsigned.account_a (by decide +kernel)

end NeuronWeb.EngineLedger
