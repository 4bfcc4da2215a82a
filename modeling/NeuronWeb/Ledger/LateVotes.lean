/-
  Ledger/LateVotes: the weights that a late vote is judged by.

  `advanceEpoch` freezes the weights of the epoch that it opens, and "votes verify against
  these, not later drift". The snapshots are pruned on a window of `EPOCH_WEIGHT_RETAIN` epochs,
  the seeds never are, and a missing snapshot reads as the live registry, which is meant for the
  genesis epoch only. So a vote from before the window passes the seed check and is judged by
  weights of another time.
-/
import NeuronWeb.Ledger.BlockIndex

set_option autoImplicit false

namespace NeuronWeb

variable {F : Type}

/-! ## What a vote is judged by -/

namespace CommitteeFinality

theorem applyVote_congr [JsNumber F] {P : Primitives F} {params : CommitteeParams F}
    {ctx ctx' : VoteContext F} {v : CommitteeVote} (s : CommitteeFinality)
    (hseed : ctx.seedFor v.epoch = ctx'.seedFor v.epoch)
    (hweight : ctx.weightOf v.accountId v.epoch = ctx'.weightOf v.accountId v.epoch)
    (htotal : ctx.totalWeight v.epoch = ctx'.totalWeight v.epoch) :
    applyVote P params ctx s v = applyVote P params ctx' s v := by
  have hcheck : checkVote P params ctx v = checkVote P params ctx' v := by
    unfold checkVote
    rw [hseed, hweight, htotal]
  unfold applyVote
  rw [hcheck]

end CommitteeFinality

namespace EngineLedger

/-- A ledger, and for each epoch the weights that were in force when it began. -/
structure Recorded (F : Type) where
  ledger : EngineLedger F
  frozen : JsMap Int (WeightSnapshot F)

namespace Recorded

variable [JsNumber F]

def new (P : Primitives F) : Recorded F := ⟨EngineLedger.new P, JsMap.empty⟩

/-- A call on the ledger.  An epoch that begins is recorded with the weights of that
moment; a reset starts over. -/
def step (P : Primitives F) (cfg : LedgerConfig) (r : Recorded F) (c : Call F) : Recorded F where
  ledger := EngineLedger.step P cfg r.ledger c
  frozen :=
    match c with
    | .advanceEpoch betas active =>
      let (L, epoch) := advanceEpoch P r.ledger betas active
      match epoch with
      | some epoch => r.frozen.set epoch L.snapshotWeights
      | none => r.frozen
    | .reset => JsMap.empty
    | _ => r.frozen

/-- The context in which a vote is judged by the weights of its own epoch. -/
def frozenContext (r : Recorded F) : VoteContext F where
  weightOf id epoch :=
    ((r.frozen.get? epoch).bind fun snap => snap.byId.get? id).getD (JsNumber.ofInt 0)
  totalWeight epoch := ((r.frozen.get? epoch).map WeightSnapshot.total).getD (JsNumber.ofInt 0)
  seedFor epoch := r.ledger.seeds.seedFor epoch

/-- The vote is for an epoch that has begun, the genesis epoch apart. -/
def Late (r : Recorded F) (v : CommitteeVote) : Prop :=
  1 ≤ v.epoch ∧ (r.ledger.seeds.seedFor v.epoch).isSome

/-- What the committee makes of the call's vote is what the frozen weights make of it: the
verdict, the seats and the state. -/
def Judged (P : Primitives F) (r : Recorded F) (c : Call F) : Prop :=
  ∀ v, c = .applyCommitteeVote v → r.Late v → ∀ s : CommitteeFinality,
    CommitteeFinality.applyVote P committeeParams r.ledger.voteContext s v =
      CommitteeFinality.applyVote P committeeParams r.frozenContext s v

/-- The vote's epoch is still inside the window of retained snapshots. -/
def InWindow (r : Recorded F) (c : Call F) : Prop :=
  ∀ v, c = .applyCommitteeVote v → r.Late v →
    r.ledger.epoch - EPOCH_WEIGHT_RETAIN ≤ v.epoch

/-! ## The invariant -/

/-- The retained snapshots are what was frozen. -/
structure Faithful (r : Recorded F) : Prop where
  epoch_nonneg : 0 ≤ r.ledger.epoch
  seeds : ∀ e, (r.ledger.seeds.seedFor e).isSome → e ≤ r.ledger.epoch
  frozen : ∀ e, 1 ≤ e → e ≤ r.ledger.epoch → (r.frozen.get? e).isSome
  retained : ∀ e, 1 ≤ e → r.ledger.epoch - EPOCH_WEIGHT_RETAIN ≤ e →
    r.ledger.epochWeightSnapshots.get? e = r.frozen.get? e

omit [JsNumber F] in
theorem faithful_new (P : Primitives F) : Faithful (new P) where
  epoch_nonneg := le_refl _
  seeds e he := by
    simp only [new, EngineLedger.new, EpochSeeds.seedFor, EpochSeeds.new, JsMap.get?_set] at he ⊢
    split at he
    · omega
    · simp at he
  frozen e h₁ h₂ := by
    simp only [new, EngineLedger.new] at h₂
    omega
  retained e _ _ := by simp [new, EngineLedger.new]

variable {P : Primitives F} {cfg : LedgerConfig} {r : Recorded F}

omit [JsNumber F] in
theorem Faithful.of_eq (h : Faithful r) {L : EngineLedger F} (hepoch : L.epoch = r.ledger.epoch)
    (hseeds : L.seeds = r.ledger.seeds)
    (hsnapshots : L.epochWeightSnapshots = r.ledger.epochWeightSnapshots) :
    Faithful ⟨L, r.frozen⟩ where
  epoch_nonneg := by
    rw [hepoch]
    exact h.epoch_nonneg
  seeds e he := by
    rw [hepoch]
    exact h.seeds e (hseeds ▸ he)
  frozen e h₁ h₂ := h.frozen e h₁ (hepoch ▸ h₂)
  retained e h₁ h₂ := by
    rw [hsnapshots]
    exact h.retained e h₁ (hepoch ▸ h₂)

/-- The new epoch's weights are frozen and kept, and what leaves the window is dropped. -/
theorem Faithful.advanceEpoch (h : Faithful r) (betas : List Hex) (active : Option (List Hex)) :
    Faithful (r.step P cfg (.advanceEpoch betas active)) := by
  simp only [step, EngineLedger.step, EngineLedger.advanceEpoch]
  cases hcommit : EpochSeeds.commit P r.ledger.seeds r.ledger.epoch betas with
  | none => exact h.of_eq rfl rfl rfl
  | some committed =>
    obtain ⟨seeds, next⟩ := committed
    have hseeds : seeds = r.ledger.seeds.set (r.ledger.epoch + 1) next := by
      unfold EpochSeeds.commit at hcommit
      split at hcommit
      · cases hcommit
      · obtain ⟨next', _, heq⟩ := Option.map_eq_some_iff.mp hcommit
        cases heq
        rfl
    have hepoch := h.epoch_nonneg
    refine ⟨?_, fun e he => ?_, fun e h₁ h₂ => ?_, fun e h₁ h₂ => ?_⟩
    · simp only
      omega
    · simp only [EpochSeeds.seedFor, hseeds, JsMap.get?_set] at he ⊢
      split at he
      · omega
      · have hle := h.seeds e he
        omega
    · simp only [JsMap.get?_set] at h₂ ⊢
      split
      · rfl
      · exact h.frozen e h₁ (by omega)
    · simp only [JsMap.get?_filter, JsMap.get?_set] at h₂ ⊢
      split
      · simp [h₂, snapshotWeights]
      · rw [h.retained e h₁ (by omega)]
        cases r.frozen.get? e with
        | none => rfl
        | some snap => simp [h₂]

theorem Faithful.step (h : Faithful r) (c : Call F) : Faithful (r.step P cfg c) := by
  cases hpolls : c.polls with
  | false =>
    have indexes : Indexes P r.ledger (EngineLedger.step P cfg r.ledger c) :=
      step_indexes hpolls
    have hfrozen : (r.step P cfg c).frozen = r.frozen := by
      cases c <;> first | rfl | exact absurd hpolls.symm Bool.false_ne_true
    have hstep := h.of_eq indexes.epoch indexes.seeds indexes.snapshots
    rw [← hfrozen] at hstep
    exact hstep
  | true =>
    cases c
    case applyCommitteeVote v => exact h.of_eq rfl rfl rfl
    case advanceEpoch betas active => exact h.advanceEpoch betas active
    case reset =>
      have hnew := faithful_new P
      exact ⟨hnew.epoch_nonneg, hnew.seeds, hnew.frozen, hnew.retained⟩
    all_goals exact absurd hpolls Bool.false_ne_true

theorem Faithful.judged (h : Faithful r) {c : Call F} (hc : r.InWindow c) : r.Judged P c := by
  rintro v rfl late s
  obtain ⟨hpos, hseed⟩ := late
  have hget := h.retained v.epoch hpos (hc v rfl ⟨hpos, hseed⟩)
  obtain ⟨snap, hsnap⟩ := Option.isSome_iff_exists.mp
    (h.frozen v.epoch hpos (h.seeds v.epoch hseed))
  refine CommitteeFinality.applyVote_congr s rfl ?_ ?_
  · simp only [voteContext, frozenContext, hget, hsnap, Option.bind_some]
  · simp only [voteContext, frozenContext, hget, hsnap, Option.map_some, Option.getD_some]

/-! ## Runs -/

/-- In a run whose votes come inside the window, each is judged by the weights of its own
epoch, whatever was bonded, credited or slashed since. -/
theorem late_votes_judged (P : Primitives F) (cfg : LedgerConfig) (calls : List (Call F))
    (h : Run.StepsMeet (step P cfg) InWindow (new P) calls) :
    Run.EveryStep (step P cfg) (fun r c _ => r.Judged P c) (new P) calls :=
  Run.everyStep_of_invariant (I := Faithful) (C := InWindow)
    (fun _ c hr _ => hr.step c) (fun _ _ hr hc => hr.judged hc) (faithful_new P) h

/-- Alice opens her account, bonds four units and lets six epochs pass. -/
def sixEpochs : List (Call Rat) :=
  [.openAccount "alice" "alice" "nullifier" [] false 0, .bondStake "alice" (some 4)] ++
    List.replicate 6 (.advanceEpoch [] none)

/-- The vote that Alice's seats of the first epoch entitle her to. -/
def firstEpochVote : CommitteeVote :=
  let L := EngineLedger.step Sample.primitives Sample.config (EngineLedger.new Sample.primitives)
    (.openAccount "alice" "alice" "nullifier" [] false 0)
  let blockHash := ((L.getAccountHead "alice").map Block.hash).getD ""
  ⟨blockHash, "alice", 0, 1, 2, "alice",
    Sample.signature (voteMessage 1 0 blockHash) "alice"⟩

/-- In its own epoch the vote is judged by the weights of that epoch. -/
theorem late_votes_judged_alice :
    Run.EveryStep (step Sample.primitives Sample.config)
      (fun r c _ => r.Judged Sample.primitives c) (new Sample.primitives)
      (sixEpochs.take 3 ++ [.applyCommitteeVote firstEpochVote]) := by
  refine late_votes_judged Sample.primitives Sample.config _ ⟨?_, ?_, ?_, ?_, trivial⟩
  · intro v hv
    cases hv
  · intro v hv
    cases hv
  · intro v hv
    cases hv
  · intro v hv _
    have hepoch : v.epoch = 1 := congrArg CommitteeVote.epoch (Call.applyCommitteeVote.inj hv).symm
    rw [hepoch]
    decide +kernel

/-- After six epochs the vote is refused, though the frozen weights accept it. -/
theorem not_judged_sixEpochs : ¬ ∀ calls : List (Call Rat),
    Run.EveryStep (step Sample.primitives Sample.config)
      (fun r c _ => r.Judged Sample.primitives c) (new Sample.primitives) calls := by
  intro hall
  have hlast := (hall (sixEpochs ++ [.applyCommitteeVote firstEpochVote])).last
  let r := Run.final (step Sample.primitives Sample.config) (new Sample.primitives) sixEpochs
  have hlate : r.Late firstEpochVote := ⟨by decide, by decide +kernel⟩
  have hsame := congrArg (fun result => result.2.map VoteResult.accepted)
    (hlast firstEpochVote rfl hlate (r.ledger.registerVotedBlock firstEpochVote.blockHash))
  have hrefused : (CommitteeFinality.applyVote Sample.primitives committeeParams
      r.ledger.voteContext (r.ledger.registerVotedBlock firstEpochVote.blockHash)
      firstEpochVote).2.map VoteResult.accepted = some false := by decide +kernel
  have haccepted : (CommitteeFinality.applyVote Sample.primitives committeeParams
      r.frozenContext (r.ledger.registerVotedBlock firstEpochVote.blockHash)
      firstEpochVote).2.map VoteResult.accepted = some true := by decide +kernel
  rw [hrefused, haccepted] at hsame
  exact absurd hsame (by decide)

end Recorded

end EngineLedger

end NeuronWeb
