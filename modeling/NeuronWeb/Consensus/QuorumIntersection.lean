/-
  Consensus/QuorumIntersection: two nodes never finalize different blocks of one group.

  The invariant follows a set `V` of votes. As long as every vote a node processes for a
  followed block is in `V`, the tally of a followed block is at most the seats of the votes in
  `V` whose voters the group has recorded for that block, and a followed block is final only
  when the votes of `V` for it reach the quorum.
-/
import NeuronWeb.Foundation.Quorum
import NeuronWeb.Consensus.FinalitySafety

set_option autoImplicit false

namespace NeuronWeb.CommitteeFinality

variable {F : Type}

/-- The votes of `V` for `h` whose voters are recorded in `g` as having chosen `h`. -/
def recordedSeats (V : Finset CommitteeVote) (g : Group) (h : Hex) : Nat :=
  ∑ v ∈ V with v.blockHash = h ∧ g.voterChoice.get? v.accountId = some h, v.seats

/-- The seats of all votes of `V` for `h`. -/
def seatsBehind (V : Finset CommitteeVote) (h : Hex) : Nat :=
  Quorum.backing V CommitteeVote.blockHash CommitteeVote.seats h

theorem recordedSeats_le_seatsBehind (V : Finset CommitteeVote) (g : Group) (h : Hex) :
    recordedSeats V g h ≤ seatsBehind V h :=
  Quorum.sum_filter_le_backing fun _ _ hv => hv.1

/-- Tallies and decisions about the blocks in `B` are backed by votes of `V`. -/
structure Backed (V : Finset CommitteeVote) (B : Hex → Prop) (quorum : Nat)
    (s : CommitteeFinality) : Prop where
  tally_le : ∀ key g h, s.groups.get? key = some g → B h →
    (g.seatsByBlock.get? h).getD 0 ≤ recordedSeats V g h
  quorum_le : ∀ f, s.finalBlocks.has f = true → B f → quorum ≤ seatsBehind V f

variable {V : Finset CommitteeVote} {B : Hex → Prop} {quorum : Nat}

theorem backed_new : Backed V B quorum new where
  tally_le := by simp [new]
  quorum_le := by simp [new]

theorem Backed.registerBlock {s : CommitteeFinality} (hs : Backed V B quorum s)
    (block : BlockRef) : Backed V B quorum (s.registerBlock block) := by
  cases hhas : s.groupOf.has block.hash with
  | true => rwa [registerBlock_of_has hhas]
  | false =>
    constructor
    case tally_le =>
      intro key g h hg hh
      simp only [CommitteeFinality.registerBlock, hhas, Bool.false_eq_true, if_false,
        JsMap.get?_set] at hg
      split at hg
      · -- joining a group leaves its tally and its voters alone
        cases hg
        cases hold : s.groups.get? block.key with
        | none => simp [emptyGroup]
        | some g₀ => exact hs.tally_le block.key g₀ h hold hh
      · exact hs.tally_le key g h hg hh
    case quorum_le =>
      intro f hf
      rw [finalBlocks_registerBlock] at hf
      exact hs.quorum_le f hf

theorem Backed.dropGroup {s : CommitteeFinality} (hs : Backed V B quorum s) (key : String)
    (g : Group) : Backed V B quorum (s.dropGroup key g) where
  tally_le key' g' h hg hh :=
    hs.tally_le key' g' h (JsMap.get?_of_get?_delete hg).2 hh
  quorum_le := hs.quorum_le

/-- Counting a vote adds at most its seats to a tally, and records its voter. -/
theorem tally_countVote_le {g : Group} {v : CommitteeVote}
    (hfresh : g.voterChoice.get? v.accountId = none) {h : Hex}
    (hv : v.blockHash = h → v ∈ V)
    (hle : (g.seatsByBlock.get? h).getD 0 ≤ recordedSeats V g h) :
    ((countVote g v v.seats).seatsByBlock.get? h).getD 0 ≤
      recordedSeats V (countVote g v v.seats) h := by
  classical
  -- a voter recorded before is not `v`'s voter, so its record stands
  have hkept : (V.filter fun w => w.blockHash = h ∧ g.voterChoice.get? w.accountId = some h) ⊆
      V.filter fun w => w.blockHash = h ∧
        (countVote g v v.seats).voterChoice.get? w.accountId = some h := by
    intro w hw
    rw [Finset.mem_filter] at hw ⊢
    obtain ⟨hmem, hblock, hchoice⟩ := hw
    have hne : v.accountId ≠ w.accountId := by
      intro heq
      rw [← heq, hfresh] at hchoice
      cases hchoice
    refine ⟨hmem, hblock, ?_⟩
    simp only [countVote]
    rw [JsMap.get?_set_ne _ _ hne]
    exact hchoice
  by_cases hblock : v.blockHash = h
  · have hnot : v ∉ V.filter fun w => w.blockHash = h ∧
        g.voterChoice.get? w.accountId = some h := by
      simp [hfresh]
    have hinsert : insert v (V.filter fun w => w.blockHash = h ∧
          g.voterChoice.get? w.accountId = some h) ⊆
        V.filter fun w => w.blockHash = h ∧
          (countVote g v v.seats).voterChoice.get? w.accountId = some h := by
      refine Finset.insert_subset ?_ hkept
      rw [Finset.mem_filter]
      exact ⟨hv hblock, hblock, by simp [countVote, hblock]⟩
    calc ((countVote g v v.seats).seatsByBlock.get? h).getD 0
        = v.seats + (g.seatsByBlock.get? h).getD 0 := by
          simp [countVote, hblock, Nat.add_comm]
      _ ≤ v.seats + recordedSeats V g h := by omega
      _ = ∑ w ∈ insert v (V.filter fun w => w.blockHash = h ∧
            g.voterChoice.get? w.accountId = some h), w.seats :=
          (Finset.sum_insert hnot).symm
      _ ≤ recordedSeats V (countVote g v v.seats) h := Finset.sum_le_sum_of_subset hinsert
  · calc ((countVote g v v.seats).seatsByBlock.get? h).getD 0
        = (g.seatsByBlock.get? h).getD 0 := by
          simp [countVote, JsMap.get?_set, hblock]
      _ ≤ recordedSeats V g h := hle
      _ ≤ recordedSeats V (countVote g v v.seats) h := Finset.sum_le_sum_of_subset hkept

section Runs

variable [JsNumber F] {P : Primitives F} {params : CommitteeParams F}

theorem Backed.counted {s : CommitteeFinality} (hs : Backed V B quorum s) {key : String}
    {g : Group} (hg : s.groups.get? key = some g) {v : CommitteeVote}
    (hfresh : g.voterChoice.get? v.accountId = none) (hv : B v.blockHash → v ∈ V) :
    Backed V B quorum (counted s key g v v.seats) where
  tally_le key' g' h hg' hh := by
    simp only [CommitteeFinality.counted, JsMap.get?_set] at hg'
    split at hg'
    · cases hg'
      exact tally_countVote_le hfresh (fun hblock => hv (hblock ▸ hh))
        (hs.tally_le key g h hg hh)
    · exact hs.tally_le key' g' h hg' hh
  quorum_le := hs.quorum_le

theorem Backed.applyVote {s : CommitteeFinality} (hs : Backed V B (seatQuorum params) s)
    (ctx : VoteContext F) {v : CommitteeVote} (hv : B v.blockHash → v ∈ V) :
    Backed V B (seatQuorum params) (CommitteeFinality.applyVote P params ctx s v).1 := by
  rcases applyVote_cases P params ctx s v with
    ⟨⟨equivocs, heq⟩, _⟩ | ⟨key, g, hcounted, heq⟩
  · rw [heq]
    exact ⟨hs.tally_le, hs.quorum_le⟩
  · have hs' := hs.counted hcounted.group hcounted.firstChoice hv
    rw [heq]
    rcases tally_cases params s key g v v.seats with ⟨_, h⟩ | ⟨hquorum, h⟩
    · rw [h]
      exact hs'
    · rw [h]
      constructor
      case tally_le =>
        intro key' g' h' hg' hh
        simp only [finalize, JsMap.get?_set] at hg'
        split at hg'
        · -- the tombstone carries no tally
          cases hg'
          simp
        · exact hs'.tally_le key' g' h' hg' hh
      case quorum_le =>
        intro f hf hh
        simp only [finalize, JsSet.has_add, Bool.or_eq_true, decide_eq_true_eq] at hf
        rcases hf with rfl | hf
        · calc seatQuorum params
              ≤ ((countVote g v v.seats).seatsByBlock.get? v.blockHash).getD 0 := hquorum
            _ ≤ recordedSeats V (countVote g v v.seats) v.blockHash :=
                hs'.tally_le key _ _ (groups_counted_self s key g v v.seats) hh
            _ ≤ seatsBehind V v.blockHash := recordedSeats_le_seatsBehind V _ _
        · exact hs'.quorum_le f hf hh

/-- The call's vote, if it is one for a block in `B`, is in `V`. -/
def VoteFrom (V : Finset CommitteeVote) (B : Hex → Prop) : Call F → Prop
  | .applyVote _ v => B v.blockHash → v ∈ V
  | _ => True

variable (P params)

theorem Backed.step {s : CommitteeFinality} (hs : Backed V B (seatQuorum params) s)
    {c : Call F} (hc : VoteFrom V B c) :
    Backed V B (seatQuorum params) (step P params s c) := by
  cases c with
  | registerBlock block => exact hs.registerBlock block
  | applyVote ctx v => exact hs.applyVote ctx hc
  | pruneStale currentEpoch retainEpochs =>
    exact pruneStale_induction (fun _ key g h _ _ => h.dropGroup key g) hs currentEpoch
      retainEpochs

theorem backed_of_run {calls : List (Call F)} (hcalls : ∀ c ∈ calls, VoteFrom V B c) :
    Backed V B (seatQuorum params) (Run.final (step P params) new calls) :=
  Run.invariant_final (C := fun _ c => VoteFrom V B c) (fun _ _ hs hc => hs.step P params hc)
    backed_new (Run.stepsMeet_of_mem (fun c hc _ => hcalls c hc) new)

/-- `h` is registered by some call as a block of the group of `accountId` and
`previousHash`. -/
def InGroup (calls : List (Call F)) (accountId previousHash h : Hex) : Prop :=
  ∃ block, .registerBlock block ∈ calls ∧ block.hash = h ∧
    block.accountId = accountId ∧ block.previousHash = previousHash

/-- Quorum intersection across nodes.  Two nodes process, in any order, with any
repetitions and among any registrations and prunings, votes for the blocks of one
conflict group that all come from a set `V`.  When the votes of `V` together carry less
than two quorums of seats, the nodes do not finalize different blocks of the group.
Votes for blocks outside the group are unrestricted, and the weights and seeds each
call sees may differ. -/
theorem quorum_intersection (accountId previousHash : Hex) (V : Finset CommitteeVote)
    (hseats : ∑ v ∈ V, v.seats < 2 * seatQuorum params) (calls₁ calls₂ : List (Call F))
    (hcalls : ∀ c ∈ calls₁ ++ calls₂,
      VoteFrom V (InGroup (calls₁ ++ calls₂) accountId previousHash) c)
    (f₁ f₂ : Hex) (hf₁ : InGroup (calls₁ ++ calls₂) accountId previousHash f₁)
    (hf₂ : InGroup (calls₁ ++ calls₂) accountId previousHash f₂)
    (hfinal₁ : (Run.final (step P params) new calls₁).isFinal f₁ = true)
    (hfinal₂ : (Run.final (step P params) new calls₂).isFinal f₂ = true) : f₁ = f₂ := by
  have hbacked₁ := backed_of_run P params fun c hc => hcalls c (List.mem_append_left _ hc)
  have hbacked₂ := backed_of_run P params fun c hc => hcalls c (List.mem_append_right _ hc)
  exact Quorum.unique hseats (hbacked₁.quorum_le f₁ hfinal₁ hf₁)
    (hbacked₂.quorum_le f₂ hfinal₂ hf₂)

end Runs

/-- One validator with all the weight votes for `a` on two nodes, one of which has
registered the sibling `b` as well. -/
theorem quorum_intersection_one_vote :
    let v : CommitteeVote := ⟨"a", "v", 0, 0, 1, "v", Sample.signature (voteMessage 0 0 "a") "v"⟩
    let vote : Call Rat := .applyVote ⟨fun _ _ => 1, fun _ => 1, fun _ => some "seed"⟩ v
    let calls₁ : List (Call Rat) :=
      [.registerBlock ⟨"b", "x", "p", by decide⟩, .registerBlock ⟨"a", "x", "p", by decide⟩, vote]
    let calls₂ : List (Call Rat) := [.registerBlock ⟨"a", "x", "p", by decide⟩, vote, vote]
    let node := Run.final (step Sample.primitives ⟨1, none⟩) new
    (node calls₁).isFinal "a" = true ∧ (node calls₂).isFinal "a" = true ∧ "a" = "a" := by
  intro v vote calls₁ calls₂ node
  have hfinal₁ : (node calls₁).isFinal "a" = true := by decide +kernel
  have hfinal₂ : (node calls₂).isFinal "a" = true := by decide +kernel
  have hin : InGroup (calls₁ ++ calls₂) "x" "p" "a" :=
    ⟨⟨"a", "x", "p", by decide⟩, by simp [calls₁], rfl, rfl, rfl⟩
  refine ⟨hfinal₁, hfinal₂, quorum_intersection Sample.primitives ⟨1, none⟩ "x" "p" {v}
    ?_ calls₁ calls₂ ?_ "a" "a" hin hin hfinal₁ hfinal₂⟩
  · rw [Finset.sum_singleton]
    decide +kernel
  · intro c hc
    simp only [calls₁, calls₂, List.cons_append, List.nil_append, List.mem_cons,
      List.not_mem_nil, or_false] at hc
    rcases hc with rfl | rfl | rfl | rfl | rfl | rfl
    · trivial
    · trivial
    · exact fun _ => Finset.mem_singleton_self v
    · trivial
    · exact fun _ => Finset.mem_singleton_self v
    · exact fun _ => Finset.mem_singleton_self v

end NeuronWeb.CommitteeFinality
