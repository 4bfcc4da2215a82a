/-
  Consensus/SeatGrinding: which draw a vote is credited with.

  A vote brings its own shard, and its proof is checked against that shard; the shard of
  the block it votes for is not looked at.  VRF uniqueness leaves a voter one draw in each
  shard, so a vote is credited with its block's draw exactly when it names the block's
  shard, or another one in which the voter happens to draw the same number.
-/
import NeuronWeb.Core.Block
import NeuronWeb.Consensus.Finality
import NeuronWeb.Sample

set_option autoImplicit false

namespace NeuronWeb.CommitteeFinality

variable {F : Type} [JsNumber F] (P : Primitives F) (params : CommitteeParams F)

/-- The seats a voter draws in a shard at an epoch. -/
def ShardDraw (ctx : VoteContext F) (accountId : Hex) (epoch shard : Int) (seats : Nat) :
    Prop :=
  ∃ seed, ctx.seedFor epoch = some seed ∧
    Draws P accountId seed epoch shard (ctx.weightOf accountId epoch) (ctx.totalWeight epoch)
      params.committeeSize seats

/-- The vote is accepted, and `seats` is what it adds to the tally of its block. -/
structure Credits (ctx : VoteContext F) (s : CommitteeFinality) (v : CommitteeVote)
    (seats : Nat) : Prop where
  accepted : ∃ r, (applyVote P params ctx s v).2 = some r ∧ r.accepted = true
  checked : checkVote P params ctx v = .ok seats

/-- The vote names the shard of its block, or one in which its voter draws as many seats. -/
def NamesBlockShard (ctx : VoteContext F) (v : CommitteeVote) (block : Block F) : Prop :=
  v.shard = block.shard ∨ ∃ seats, ShardDraw P params ctx v.accountId v.epoch v.shard seats ∧
    ShardDraw P params ctx v.accountId v.epoch block.shard seats

variable {P params}

theorem ShardDraw.unique (hvrf : VrfUnique P) {ctx : VoteContext F} {accountId : Hex}
    {epoch shard : Int} {n m : Nat} (hn : ShardDraw P params ctx accountId epoch shard n)
    (hm : ShardDraw P params ctx accountId epoch shard m) : n = m := by
  obtain ⟨seed, hseed, hn⟩ := hn
  obtain ⟨seed', hseed', hm⟩ := hm
  rw [hseed] at hseed'
  cases hseed'
  exact hn.unique hvrf hm

theorem Credits.shardDraw {ctx : VoteContext F} {s : CommitteeFinality} {v : CommitteeVote}
    {seats : Nat} (h : Credits P params ctx s v seats) :
    ShardDraw P params ctx v.accountId v.epoch v.shard seats := by
  obtain ⟨_, ⟨seed, hseed, hdraw⟩, _⟩ := checkVote_eq_ok.mp h.checked
  exact ⟨seed, hseed, v.pi, hdraw⟩

theorem Credits.draws_blockShard_iff (hvrf : VrfUnique P) {ctx : VoteContext F}
    {s : CommitteeFinality} {v : CommitteeVote} {seats : Nat}
    (h : Credits P params ctx s v seats) (block : Block F) :
    ShardDraw P params ctx v.accountId v.epoch block.shard seats ↔
      NamesBlockShard P params ctx v block := by
  constructor
  · intro hdraw
    exact .inr ⟨seats, h.shardDraw, hdraw⟩
  · rintro (hshard | ⟨m, hnamed, hblock⟩)
    · rw [← hshard]
      exact h.shardDraw
    · rw [h.shardDraw.unique hvrf hnamed]
      exact hblock

/-- Under VRF uniqueness, an accepted vote for a block is credited with its voter's draw in
the block's shard exactly when it names that shard or one with the same draw; and two such
votes of one voter at one epoch are credited alike, whatever else they say. -/
theorem credits_block_draw_iff (hvrf : VrfUnique P) (params : CommitteeParams F)
    (ctx : VoteContext F) (block : Block F) :
    (∀ s v seats, v.blockHash = block.hash → Credits P params ctx s v seats →
      (ShardDraw P params ctx v.accountId v.epoch block.shard seats ↔
        NamesBlockShard P params ctx v block)) ∧
    ∀ s s' v v' seats seats', v.blockHash = block.hash → v'.blockHash = block.hash →
      v.accountId = v'.accountId → v.epoch = v'.epoch →
      Credits P params ctx s v seats → Credits P params ctx s' v' seats' →
      NamesBlockShard P params ctx v block → NamesBlockShard P params ctx v' block →
      seats = seats' := by
  refine ⟨fun s v seats _ h => h.draws_blockShard_iff hvrf block, ?_⟩
  intro s s' v v' seats seats' _ _ haccount hepoch h h' hnames hnames'
  have hdraw := (h.draws_blockShard_iff hvrf block).mpr hnames
  have hdraw' := (h'.draws_blockShard_iff hvrf block).mpr hnames'
  rw [← haccount, ← hepoch] at hdraw'
  exact hdraw.unique hvrf hdraw'

/-! ## A voter that picks its shard -/

section Sample

/-- One voter with 7 of a total weight of 100, and one epoch. -/
def sampleContext : VoteContext Rat := ⟨fun _ _ => 7, fun _ => 100, fun _ => some "s"⟩

def sampleParams : CommitteeParams Rat := { committeeSize := 37 }

/-- Alice's genesis block, in shard 0. -/
def shardZeroBlock : Block Rat :=
  { accountId := "alice", index := 0, type := .open, previousHash := GENESIS_PREV, shard := 0,
    timestamp := 0, balance := 0, accumulatorRoot := "", hash := "b", signature := "" }

theorem shardZeroBlock_hash_ne : shardZeroBlock.hash ≠ "" := by decide

/-- A committee that has registered it. -/
def shardZeroCommittee : CommitteeFinality :=
  new.registerBlock ⟨"b", "alice", GENESIS_PREV, shardZeroBlock_hash_ne⟩

/-- The voter's vote for the block, with the draw of the shard it names. -/
def voteInShard (shard : Int) (seats : Nat) : CommitteeVote :=
  ⟨"b", "victor", shard, 0, seats, "victor", Sample.signature (voteMessage 0 shard "b") "victor"⟩

theorem credits_voteInShard (shard : Int) (seats : Nat)
    (haccepted : ((applyVote Sample.primitives sampleParams sampleContext shardZeroCommittee
      (voteInShard shard seats)).2.map VoteResult.accepted) = some true)
    (hchecked : checkVote Sample.primitives sampleParams sampleContext
      (voteInShard shard seats) = .ok seats) :
    Credits Sample.primitives sampleParams sampleContext shardZeroCommittee
      (voteInShard shard seats) seats :=
  ⟨Option.map_eq_some_iff.mp haccepted, hchecked⟩

/-- The vote that names its block's shard is credited with that shard's draw, and with
nothing else. -/
theorem credits_block_draw_iff_shard_zero :
    ShardDraw Sample.primitives sampleParams sampleContext "victor" 0 0 1 ∧
    ∀ seats, Credits Sample.primitives sampleParams sampleContext shardZeroCommittee
      (voteInShard 0 1) seats → seats = 1 := by
  have hvrf : VrfUnique Sample.primitives := Sample.vrfUnique
  obtain ⟨hdraw, hsame⟩ :=
    credits_block_draw_iff hvrf sampleParams sampleContext shardZeroBlock
  have honest := credits_voteInShard 0 1 (by decide +kernel)
    (by decide +kernel)
  have hnames : NamesBlockShard Sample.primitives sampleParams sampleContext (voteInShard 0 1)
      shardZeroBlock := .inl rfl
  exact ⟨(hdraw _ _ 1 rfl honest).mpr hnames, fun seats h =>
    hsame _ _ _ _ seats 1 rfl rfl rfl rfl h honest hnames hnames⟩

/-- The voter moves its vote to another shard and is credited with two seats instead of
one, although its VRF has one output for each input. -/
theorem shard_choice_changes_seats : VrfUnique Sample.primitives ∧
    ¬ ∀ s v v' (seats seats' : Nat), v.blockHash = shardZeroBlock.hash →
      v'.blockHash = shardZeroBlock.hash → v.accountId = v'.accountId → v.epoch = v'.epoch →
      Credits Sample.primitives sampleParams sampleContext s v seats →
      Credits Sample.primitives sampleParams sampleContext s v' seats' → seats = seats' := by
  refine ⟨Sample.vrfUnique, fun hall => ?_⟩
  have hequal := hall shardZeroCommittee (voteInShard 0 1) (voteInShard 9 2) 1 2 rfl rfl rfl rfl
    (credits_voteInShard 0 1 (by decide +kernel) (by decide +kernel))
    (credits_voteInShard 9 2 (by decide +kernel) (by decide +kernel))
  exact absurd hequal (by decide)

end Sample

end NeuronWeb.CommitteeFinality
