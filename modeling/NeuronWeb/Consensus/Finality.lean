/-
  Consensus/Finality: committee finality (`engine/consensus/finality.ts`).

  A committee member signs a vote for the block it sees at a chain position; the vote carries
  its VRF sortition proof, so its seat count is self-proving.

  The weight source and the seed function of the source are closures over the ledger, whose
  answers change from call to call, so every call of `applyVote` brings its own (`VoteContext`).
  Votes are counted in whole seats: a vote whose `seats` is not a natural number never equals a
  verified seat count and is refused like any other mismatch.
-/
import NeuronWeb.Consensus.Sortition

set_option autoImplicit false

namespace NeuronWeb

variable {F : Type}

structure CommitteeVote where
  /-- The block this committee member is voting to finalize. -/
  blockHash : Hex
  /-- Voter: the committee member's account id. -/
  accountId : Hex
  shard : Int
  epoch : Int
  /-- Seats won (must equal the count the VRF proof verifies to). -/
  seats : Nat
  /-- VRF sortition proof. -/
  pi : Hex
  /-- Member's signature over the epoch, the shard and the block. -/
  sig : Hex
  deriving DecidableEq, Repr, Inhabited

structure CommitteeParams (F : Type) where
  committeeSize : F
  /-- Fraction of committee seats required to finalize (two thirds when absent). -/
  threshold : Option F := none

/-- `WeightSource` and `seedFor`, as they answer during one call. -/
structure VoteContext (F : Type) where
  weightOf : Hex → Int → F
  totalWeight : Int → F
  seedFor : Int → Option String

structure VoteEquivocation where
  voterId : Hex
  blockA : Hex
  blockB : Hex
  deriving DecidableEq, Repr, Inhabited

structure VoteResult where
  accepted : Bool
  reason : Option String := none
  /-- The block that just reached quorum. -/
  finalized : Option Hex := none
  /-- Siblings rejected because a competitor finalized. -/
  rejected : Option (List Hex) := none
  /-- Present iff this voter voted for two siblings. -/
  equivocation : Option VoteEquivocation := none
  deriving DecidableEq, Repr

def VoteResult.refused (reason : String) : VoteResult :=
  { accepted := false, reason := some reason }

inductive FinalityStatus where
  | final
  | rejected
  | pending
  | unknown
  deriving DecidableEq, Repr

def voteMessage (epoch shard : Int) (blockHash : Hex) : String :=
  "engine-vote:" ++ toString epoch ++ ":" ++ toString shard ++ ":" ++ blockHash

/-- Absolute seat quorum required to finalize. -/
def seatQuorum [JsNumber F] (params : CommitteeParams F) : Nat :=
  let threshold := params.threshold.getD (JsNumber.div (JsNumber.ofInt 2) (JsNumber.ofInt 3))
  (max 1 (JsNumber.toInt (JsNumber.ceil (JsNumber.mul threshold params.committeeSize)))).toNat

/-- Cast this validator's committee vote for the block, if it won any seats this epoch.  The
outer `none` is a thrown call, the inner one `null`. -/
def castCommitteeVote [JsNumber F] (P : Primitives F)
    (vrfProve : Hex → Bytes → Option (Hex × Bytes)) (privHex pub blockHash : Hex) (shard : Int)
    (seed : String) (epoch : Int) (weight totalWeight committeeSize : F) :
    Option (Option CommitteeVote) :=
  match proveSortition vrfProve privHex seed epoch shard weight totalWeight committeeSize with
  | none => none
  | some proof =>
    if proof.seats = 0 then some none
    else
      match P.sign (voteMessage epoch shard blockHash) privHex with
      | none => none
      | some sig =>
        some (some { blockHash, accountId := pub, shard, epoch, seats := proof.seats,
                     pi := proof.pi, sig })

/-! ## State -/

structure Group where
  /-- Competing blocks at this `accountId:previousHash`. -/
  blocks : JsSet Hex
  /-- Block hash to the total of seats backing it. -/
  seatsByBlock : JsMap Hex Nat
  /-- Voter to the block it chose. -/
  voterChoice : JsMap Hex Hex
  final : Option Hex

/-- What `registerBlock` reads of a block.  Its caller registers only blocks it holds,
whose hash is a digest and so not the empty string. -/
structure BlockRef where
  hash : Hex
  accountId : Hex
  previousHash : Hex
  hash_ne_empty : hash ≠ ""

/-- The key of a conflict group. -/
def groupKey (accountId previousHash : Hex) : String := accountId ++ ":" ++ previousHash

def BlockRef.key (b : BlockRef) : String := groupKey b.accountId b.previousHash

structure CommitteeFinality where
  /-- Block hash to group key. -/
  groupOf : JsMap Hex String
  groups : JsMap String Group
  /-- Group key to its latest vote epoch. -/
  groupEpoch : JsMap String Int
  finalBlocks : JsSet Hex
  rejectedBlocks : JsSet Hex
  equivocs : List VoteEquivocation

namespace CommitteeFinality

/-- `new CommitteeFinality(…)`. -/
def new : CommitteeFinality :=
  ⟨JsMap.empty, JsMap.empty, JsMap.empty, JsMap.empty, JsMap.empty, []⟩

def emptyGroup : Group := ⟨JsMap.empty, JsMap.empty, JsMap.empty, none⟩

/-- Register a block so its votes have a conflict group. -/
def registerBlock (s : CommitteeFinality) (block : BlockRef) : CommitteeFinality :=
  if s.groupOf.has block.hash then s
  else
    let key := block.key
    let g := (s.groups.get? key).getD emptyGroup
    { s with
      groupOf := s.groupOf.set block.hash key
      groups := s.groups.set key { g with blocks := JsSet.add g.blocks block.hash } }

/-! ## Votes -/

section Votes

variable [JsNumber F] (P : Primitives F) (params : CommitteeParams F)

/-- Checks 1 and 2 of `applyVote`, which look at the vote alone: the seats it is worth,
or the reason it is refused. -/
def checkVote (ctx : VoteContext F) (v : CommitteeVote) : Except String Nat :=
  if !P.verify v.sig (voteMessage v.epoch v.shard v.blockHash) v.accountId then
    .error "bad signature"
  else
    match ctx.seedFor v.epoch with
    | none => .error "unknown epoch seed"
    | some seed =>
      let weight := ctx.weightOf v.accountId v.epoch
      let total := ctx.totalWeight v.epoch
      match verifySortition P v.accountId seed v.epoch v.shard weight total
          params.committeeSize v.pi with
      | none => .error "invalid sortition proof"
      | some seats =>
        if seats = 0 ∨ seats ≠ v.seats then .error "seat count mismatch" else .ok seats

/-- A group with one more vote in its tally. -/
def countVote (g : Group) (v : CommitteeVote) (seats : Nat) : Group :=
  { g with
    voterChoice := g.voterChoice.set v.accountId v.blockHash
    seatsByBlock := g.seatsByBlock.set v.blockHash
      ((g.seatsByBlock.get? v.blockHash).getD 0 + seats) }

/-- Step 5 of `applyVote`: `h` has reached quorum in the group `g` under `key`. -/
def finalize (s : CommitteeFinality) (key : String) (g : Group) (h : Hex) :
    CommitteeFinality × List Hex :=
  let rejected := g.blocks.keys.filter (· ≠ h)
  -- the tombstone keeps the competing blocks and the winner
  let tombstone : Group := ⟨g.blocks, JsMap.empty, JsMap.empty, some h⟩
  ({ s with
      groups := s.groups.set key tombstone
      finalBlocks := JsSet.add s.finalBlocks h
      rejectedBlocks := JsSet.addAll s.rejectedBlocks rejected
      groupEpoch := s.groupEpoch.delete key }, rejected)

/-- Steps 4 and 5 of `applyVote`: tally, then finalize on quorum. -/
def tally (s : CommitteeFinality) (key : String) (g : Group) (v : CommitteeVote)
    (seats : Nat) : CommitteeFinality × VoteResult :=
  let g' := countVote g v seats
  let s' := { s with
    groups := s.groups.set key g'
    groupEpoch := s.groupEpoch.set key (max ((s.groupEpoch.get? key).getD v.epoch) v.epoch) }
  if seatQuorum params ≤ (g'.seatsByBlock.get? v.blockHash).getD 0 then
    let (final, rejected) := finalize s' key g' v.blockHash
    (final, { accepted := true, finalized := some v.blockHash, rejected := some rejected })
  else (s', { accepted := true })

/-- Verify and tally a committee vote; `none` is a thrown call. -/
def applyVote (ctx : VoteContext F) (s : CommitteeFinality) (v : CommitteeVote) :
    CommitteeFinality × Option VoteResult :=
  match s.groupOf.get? v.blockHash with
  | none => (s, some (.refused "unknown block"))
  | some key =>
    match s.groups.get? key with
    | none => (s, none)
    | some g =>
      if truthy g.final then (s, some (.refused "group already final"))
      else
        match checkVote P params ctx v with
        | .error reason => (s, some (.refused reason))
        | .ok seats =>
          match g.voterChoice.get? v.accountId with
          | some prior =>
            if prior = v.blockHash then (s, some (.refused "duplicate vote"))
            else
              let equivocation := ⟨v.accountId, prior, v.blockHash⟩
              ({ s with equivocs := s.equivocs ++ [equivocation] },
                some { accepted := false, reason := some "equivocation",
                       equivocation := some equivocation })
          | none =>
            let (s', r) := tally params s key g v seats
            (s', some r)

end Votes

/-! ## Pruning and queries -/

/-- Is an undecided group's latest vote older than the retention window? -/
def stale (s : CommitteeFinality) (currentEpoch retainEpochs : Int) (key : String)
    (g : Group) : Bool :=
  !truthy g.final &&
    decide ((s.groupEpoch.get? key).getD currentEpoch < currentEpoch - retainEpochs)

/-- Forget one group and the membership of its blocks. -/
def dropGroup (s : CommitteeFinality) (key : String) (g : Group) : CommitteeFinality :=
  { s with
    groupOf := s.groupOf.deleteAll g.blocks.keys
    groups := s.groups.delete key
    groupEpoch := s.groupEpoch.delete key }

/-- One round of the loop of `pruneStale`, with the count of groups dropped so far. -/
def pruneGroup (currentEpoch retainEpochs : Int) (acc : CommitteeFinality × Nat)
    (entry : String × Group) : CommitteeFinality × Nat :=
  if acc.1.stale currentEpoch retainEpochs entry.1 entry.2 then
    (acc.1.dropGroup entry.1 entry.2, acc.2 + 1)
  else acc

/-- Drop undecided groups whose latest vote predates the retention window. -/
def pruneStale (s : CommitteeFinality) (currentEpoch : Int) (retainEpochs : Int := 2) :
    CommitteeFinality × Nat :=
  s.groups.entries.foldl (pruneGroup currentEpoch retainEpochs) (s, 0)

def status (s : CommitteeFinality) (blockHash : Hex) : FinalityStatus :=
  if s.finalBlocks.has blockHash then .final
  else if s.rejectedBlocks.has blockHash then .rejected
  else if s.groupOf.has blockHash then .pending
  else .unknown

def isFinal (s : CommitteeFinality) (blockHash : Hex) : Bool := s.finalBlocks.has blockHash

/-- Seats backing a block so far. -/
def seatsFor (s : CommitteeFinality) (blockHash : Hex) : Nat :=
  match s.groupOf.get? blockHash with
  | some key =>
    (((s.groups.get? key).map Group.seatsByBlock).bind fun seats =>
      seats.get? blockHash).getD 0
  | none => 0

/-! ## Runs -/

/-- A call of the component's public interface. -/
inductive Call (F : Type) where
  | registerBlock (block : BlockRef)
  | applyVote (ctx : VoteContext F) (v : CommitteeVote)
  | pruneStale (currentEpoch retainEpochs : Int)

def step [JsNumber F] (P : Primitives F) (params : CommitteeParams F) (s : CommitteeFinality) :
    Call F → CommitteeFinality
  | .registerBlock block => s.registerBlock block
  | .applyVote ctx v => (applyVote P params ctx s v).1
  | .pruneStale currentEpoch retainEpochs => (s.pruneStale currentEpoch retainEpochs).1

/-! ## What one vote can do -/

section Votes

variable [JsNumber F] {P : Primitives F} {params : CommitteeParams F}

/-- A vote passes the checks exactly when it is signed, its epoch has a seed, and its
proof verifies to the positive number of seats it claims. -/
theorem checkVote_eq_ok {ctx : VoteContext F} {v : CommitteeVote} {seats : Nat} :
    checkVote P params ctx v = .ok seats ↔
      P.verify v.sig (voteMessage v.epoch v.shard v.blockHash) v.accountId = true ∧
      (∃ seed, ctx.seedFor v.epoch = some seed ∧
        verifySortition P v.accountId seed v.epoch v.shard (ctx.weightOf v.accountId v.epoch)
          (ctx.totalWeight v.epoch) params.committeeSize v.pi = some seats) ∧
      seats = v.seats ∧ v.seats ≠ 0 := by
  unfold checkVote
  cases hsig : P.verify v.sig (voteMessage v.epoch v.shard v.blockHash) v.accountId with
  | false => simp
  | true =>
    cases hseed : ctx.seedFor v.epoch with
    | none => simp
    | some seed =>
      cases hdraw : verifySortition P v.accountId seed v.epoch v.shard
          (ctx.weightOf v.accountId v.epoch) (ctx.totalWeight v.epoch)
          params.committeeSize v.pi with
      | none => simp [hdraw]
      | some n =>
        by_cases hmatch : n = 0 ∨ n ≠ v.seats
        · simp only [Bool.not_true, Bool.false_eq_true, if_false, hdraw, hmatch, if_true]
          constructor
          · intro h; cases h
          · rintro ⟨_, ⟨seed', hseed', hdraw'⟩, hn, hpos⟩
            cases hseed'
            rw [hdraw] at hdraw'
            cases hdraw'
            rcases hmatch with hzero | hne
            · exact absurd (hn ▸ hzero) hpos
            · exact absurd hn hne
        · simp only [Bool.not_true, Bool.false_eq_true, if_false, hdraw, hmatch]
          simp only [not_or, ne_eq, Decidable.not_not] at hmatch
          obtain ⟨hpos, rfl⟩ := hmatch
          constructor
          · intro h
            cases h
            exact ⟨trivial, ⟨seed, rfl, hdraw⟩, rfl, hpos⟩
          · rintro ⟨_, _, rfl, _⟩
            rfl

/-- The vote `v` is counted in the group `g` under `key`: every check passes. -/
structure Counted (P : Primitives F) (params : CommitteeParams F) (ctx : VoteContext F)
    (s : CommitteeFinality) (v : CommitteeVote) (key : String) (g : Group) : Prop where
  known : s.groupOf.get? v.blockHash = some key
  group : s.groups.get? key = some g
  undecided : truthy g.final = false
  checked : checkVote P params ctx v = .ok v.seats
  firstChoice : g.voterChoice.get? v.accountId = none

/-- A vote is either refused, and then nothing but the list of equivocations moves, or
counted in the group of its block. -/
theorem applyVote_cases (P : Primitives F) (params : CommitteeParams F)
    (ctx : VoteContext F) (s : CommitteeFinality) (v : CommitteeVote) :
    ((∃ equivocs, (applyVote P params ctx s v).1 = { s with equivocs }) ∧
        ∀ r, (applyVote P params ctx s v).2 = some r → r.accepted = false) ∨
      ∃ key g, Counted P params ctx s v key g ∧
        applyVote P params ctx s v =
          ((tally params s key g v v.seats).1, some (tally params s key g v v.seats).2) := by
  unfold applyVote
  cases hknown : s.groupOf.get? v.blockHash with
  | none => exact .inl ⟨⟨s.equivocs, rfl⟩, by rintro r ⟨⟩; rfl⟩
  | some key =>
    cases hgroup : s.groups.get? key with
    | none => exact .inl ⟨⟨s.equivocs, by simp [hgroup]⟩, by simp [hgroup]⟩
    | some g =>
      simp only [hgroup]
      cases hfinal : truthy g.final with
      | true => exact .inl ⟨⟨s.equivocs, rfl⟩, by rintro r ⟨⟩; rfl⟩
      | false =>
        cases hcheck : checkVote P params ctx v with
        | error reason => exact .inl ⟨⟨s.equivocs, rfl⟩, by rintro r ⟨⟩; rfl⟩
        | ok seats =>
          cases hchoice : g.voterChoice.get? v.accountId with
          | some prior =>
            refine .inl ?_
            by_cases hprior : prior = v.blockHash
            · simp only [hprior, if_true]
              exact ⟨⟨s.equivocs, rfl⟩, by rintro r ⟨⟩; rfl⟩
            · simp only [hprior, if_false]
              exact ⟨⟨_, rfl⟩, by rintro r ⟨⟩; rfl⟩
          | none =>
            have hseats : seats = v.seats := (checkVote_eq_ok.mp hcheck).2.2.1
            subst hseats
            exact .inr ⟨key, g, ⟨hknown, hgroup, hfinal, hcheck, hchoice⟩, rfl⟩

theorem applyVote_equivocs (P : Primitives F) (params : CommitteeParams F)
    (ctx : VoteContext F) (s : CommitteeFinality) (v : CommitteeVote) :
    (applyVote P params ctx s v).1.equivocs =
      s.equivocs ++ ((applyVote P params ctx s v).2.bind VoteResult.equivocation).toList := by
  have htally : ∀ key g seats, (tally params s key g v seats).1.equivocs = s.equivocs ∧
      (tally params s key g v seats).2.equivocation = none := by
    intro key g seats
    unfold tally
    simp only
    split <;> exact ⟨rfl, rfl⟩
  unfold applyVote
  cases s.groupOf.get? v.blockHash with
  | none => simp [VoteResult.refused]
  | some key =>
    cases hgroup : s.groups.get? key with
    | none => simp [hgroup]
    | some g =>
      simp only [hgroup]
      cases truthy g.final with
      | true => simp [VoteResult.refused]
      | false =>
        cases checkVote P params ctx v with
        | error reason => simp [VoteResult.refused]
        | ok seats =>
          cases g.voterChoice.get? v.accountId with
          | some prior =>
            by_cases hprior : prior = v.blockHash
            · simp [hprior, VoteResult.refused]
            · simp [hprior]
          | none => simp [htally]

end Votes

end CommitteeFinality

end NeuronWeb
