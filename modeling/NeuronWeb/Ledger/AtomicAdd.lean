/-
  Ledger/AtomicAdd: does a refused block leave the ledger as it was?

  Two things can be left behind by a block that `addBlock` refuses: the empty chain of a
  genesis block with a wrong accumulator root, on which every later block of the account
  throws, and a block of the height of a held one that proves no double-spend.
-/
import NeuronWeb.Ledger.Run
import NeuronWeb.Ledger.Sample

set_option autoImplicit false

namespace NeuronWeb.EngineLedger

variable {F : Type}

theorem flagFork_of_unproved {L : EngineLedger F} {existing block : Block F}
    (h : proveDoubleSpend existing block = none) :
    L.flagFork existing block = L.indexBlock block := by
  simp [flagFork, flagEquivocation, h]

variable [JsNumber F] (P : Primitives F) (L : EngineLedger F) (block : Block F)

/-- The block and one held at its height prove a double-spend of their account. -/
structure GenuineFork (h : Held F) (existing : Block F) : Prop where
  authentic : Authentic P L block
  stored : L.held.get? block.accountId = some h
  height : blockAt h.chain block.index = some existing
  proved : (proveDoubleSpend existing block).isSome = true

/-- `addBlock` answers, and a refusal leaves the ledger as it was, unless a genuine fork
freezes the account and is kept. -/
structure AtomicAdd (now : Int) : Prop where
  answers : (addBlock P L block now).2 ≠ .thrown
  unchanged : ∀ error, (addBlock P L block now).2 = .failure error →
    (addBlock P L block now).1 = L ∨ ∃ h existing, GenuineFork P L block h existing ∧
      (addBlock P L block now).1 = L.flagFork existing block

/-- The blocks that throw, or leave something behind although they are refused. -/
inductive Disturbs : Prop
  /-- A genesis block that opens a chain and names a wrong accumulator root. -/
  | wrongRoot (authentic : Authentic P L block) (opens : OpensChain L block)
      (root : ∀ acc, ¬ RootMatches P ⟨[], []⟩ block acc)
  /-- A block of an account whose chain is held empty. -/
  | emptyChain (h : Held F) (authentic : Authentic P L block)
      (stored : L.held.get? block.accountId = some h) (empty : h.chain = [])
      (genesis : block.index = 0 →
        block.type = .open ∧ block.previousHash = GENESIS_PREV ∧ block.balance = MINT)
  /-- A block that is not indexed yet, of the height of a held one that it does not fork. -/
  | unproved (h : Held F) (existing : Block F) (authentic : Authentic P L block)
      (forks : Forks L h existing block) (unproved : proveDoubleSpend existing block = none)
      (fresh : L.allBlocks.get? block.hash ≠ some block)

variable {P L block}

/-- The only blocks that throw are those of a chain that is held empty. -/
theorem emptyChain_of_thrown {now : Int} (h : (addBlock P L block now).2 = .thrown) :
    Disturbs P L block := by
  have outcome := addBlock_outcome P L block now
  generalize addBlock P L block now = result at outcome h
  cases outcome with
  | unchanged r known stuck =>
    obtain ⟨held, stuck⟩ := stuck h
    exact .emptyChain held stuck.authentic stuck.stored stuck.empty stuck.genesis
  | emptied r authentic opens refused answered => exact absurd h answered
  | _ => cases h

theorem atomicAdd_of_not_disturbs (hnot : ¬ Disturbs P L block) (now : Int) :
    AtomicAdd P L block now := by
  refine ⟨fun hthrown => hnot (emptyChain_of_thrown hthrown), fun error hfailure => ?_⟩
  have outcome := addBlock_outcome P L block now
  generalize hresult : addBlock P L block now = result at outcome hfailure
  cases outcome with
  | unchanged r => exact .inl rfl
  | forked h existing error authentic forks =>
    cases hproof : proveDoubleSpend existing block with
    | some ev =>
      have fork : GenuineFork P L block h existing :=
        ⟨authentic, forks.stored, forks.height, by simp [hproof]⟩
      exact .inr ⟨h, existing, fork, rfl⟩
    | none =>
      rw [flagFork_of_unproved hproof]
      by_cases hindexed : L.allBlocks.get? block.hash = some block
      · left
        simp [indexBlock, JsMap.set_eq_self hindexed]
      · exact absurd (.unproved h existing authentic forks hproof hindexed) hnot
  | emptied r authentic opens refused =>
    refine absurd (.wrongRoot authentic opens fun acc root => refused ?_) hnot
    have hopens := addBlock_opens now authentic opens root
    rw [hresult] at hopens
    exact congrArg Prod.snd hopens
  | opened acc authentic opens root => cases hfailure
  | extended h head acc authentic links checked root => cases hfailure

theorem Disturbs.not_atomicAdd (h : Disturbs P L block) (now : Int) :
    ¬ AtomicAdd P L block now := by
  rintro ⟨answers, unchanged⟩
  cases h with
  | wrongRoot authentic opens root =>
    obtain ⟨acc, happend⟩ := authentic.append []
    have hroot : acc.rootHex P ≠ block.accumulatorRoot := fun h => root acc ⟨happend, h⟩
    have hadd : addBlock P L block now = (L.hold block.accountId ⟨[], []⟩,
        .failure "accumulator root mismatch") := by
      simp [addBlock, authentic.hash, authentic.signature, authentic.notFrozen, opens.index,
        addGenesis, opens.type, opens.previousHash, opens.balance, opens.fresh, commitBlock,
        happend, hroot]
    rw [hadd] at unchanged
    rcases unchanged _ rfl with (hsame : L.hold block.accountId ⟨[], []⟩ = L) |
      ⟨h, existing, fork, -⟩
    · have hheld : (L.hold block.accountId ⟨[], []⟩).held.get? block.accountId = none := by
        rw [hsame, opens.fresh]
      simp [hold] at hheld
    · have hstored := fork.stored
      rw [opens.fresh] at hstored
      cases hstored
  | emptyChain h authentic stored empty genesis =>
    refine answers ?_
    by_cases hindex : block.index = 0
    · obtain ⟨htype, hprev, hbalance⟩ := genesis hindex
      simp [addBlock, authentic.hash, authentic.signature, authentic.notFrozen, hindex,
        addGenesis, htype, hprev, hbalance, stored, empty]
    · simp [addBlock, authentic.hash, authentic.signature, authentic.notFrozen, hindex,
        addNext, stored, empty]
  | unproved h existing authentic forks unproved fresh =>
    obtain ⟨error, hadd⟩ := addBlock_forks now authentic forks
    rw [hadd] at unchanged
    rcases unchanged error rfl with (hsame : L.flagFork existing block = L) |
      ⟨h', existing', fork, -⟩
    · rw [flagFork_of_unproved unproved] at hsame
      refine fresh ?_
      rw [← hsame]
      simp [indexBlock]
    · have hstored := fork.stored
      rw [forks.stored] at hstored
      cases hstored
      have hheight := fork.height
      rw [forks.height] at hheight
      cases hheight
      have hproved := fork.proved
      rw [unproved] at hproved
      cases hproved

/-! ## Runs -/

/-- Every delivered block is added atomically. -/
def AddsAtomically (P : Primitives F) (L : EngineLedger F) : Call F → EngineLedger F → Prop
  | .addBlock block now, _ => AtomicAdd P L block now
  | _, _ => True

/-- The call delivers no block that disturbs the ledger. -/
def Undisturbing (P : Primitives F) (L : EngineLedger F) : Call F → Prop
  | .addBlock block _ => ¬ Disturbs P L block
  | _ => True

/-- Over every run, and in every state for every block: `addBlock` answers, and a refusal
changes nothing but for a genuine fork, if and only if no block that disturbs is delivered. -/
theorem adds_atomically_iff (P : Primitives F) (cfg : LedgerConfig) (calls : List (Call F)) :
    (Run.EveryStep (step P cfg) (AddsAtomically P) (new P) calls ↔
        Run.StepsMeet (step P cfg) (Undisturbing P) (new P) calls) ∧
      ∀ (L : EngineLedger F) (block : Block F) (now : Int),
        AtomicAdd P L block now ↔ ¬ Disturbs P L block := by
  have hadd : ∀ (L : EngineLedger F) (block : Block F) (now : Int),
      AtomicAdd P L block now ↔ ¬ Disturbs P L block := fun L block now =>
    ⟨fun hatomic h => h.not_atomicAdd now hatomic, fun hnot => atomicAdd_of_not_disturbs hnot now⟩
  refine ⟨Run.everyStep_iff_stepsMeet (I := fun _ => True) (fun _ _ _ => trivial)
    (fun L c _ => ?_) trivial, hadd⟩
  cases c
  case addBlock block now => exact hadd L block now
  all_goals exact Iff.rfl

/-! ## A genesis block with a wrong root -/

/-- Alice's genesis block, signed over an accumulator root that is not its own. -/
def wrongRootGenesis : Block Rat :=
  let L := new Sample.primitives
  let genesis := Sample.continuing L (Sample.header L "alice")
  { genesis with
    accumulatorRoot := GENESIS_PREV
    signature := Sample.signature (blockSigningMessage genesis.hash GENESIS_PREV) "alice" }

/-- It is refused, and an empty chain stays behind. -/
theorem refused_genesis_stays : ¬ ∀ (L : EngineLedger Rat),
    Run.Reachable (step Sample.primitives Sample.config) (new Sample.primitives) L →
      ∀ (block : Block Rat) (now : Int), AtomicAdd Sample.primitives L block now := by
  intro hall
  refine Disturbs.not_atomicAdd (.wrongRoot ⟨by decide +kernel, by decide +kernel, rfl⟩
    ⟨by decide +kernel, by decide +kernel, by decide +kernel, by decide +kernel, rfl⟩
    fun acc root => ?_) 0 (hall _ (Run.reachable_init _) wrongRootGenesis 0)
  have hwrong : AccountAccumulator.rootWithHex Sample.primitives [] wrongRootGenesis.hash ≠
      some wrongRootGenesis.accumulatorRoot := by decide +kernel
  refine hwrong ?_
  rw [AccountAccumulator.rootWithHex, root.append, ← root.root]
  rfl

end NeuronWeb.EngineLedger
