/-
  Ledger/BondLock: bonded stake and the sends that spend it.

  The bond is a number in the validator registry and the money stays in the balance of the
  chain. `LockedLedger` therefore carries next to the ledger what bonding has locked so far,
  which no operation ever gives back.
-/
import NeuronWeb.Ledger.Outcome
import NeuronWeb.Ledger.Sample

set_option autoImplicit false

namespace NeuronWeb.EngineLedger

variable {F : Type}

/-! ## What bonding has locked -/

/-- What a call locks for `x`: by how much it raises the bond on record. -/
def lockedBy (L L' : EngineLedger F) (x : Hex) : Int :=
  max 0 (L'.validatorRegistry.bondedOf x - L.validatorRegistry.bondedOf x)

/-- The ledger together with the total that bonding has locked for each account. -/
structure LockedLedger (F : Type) where
  ledger : EngineLedger F
  locked : Hex → Int

section Step

variable [JsNumber F] (P : Primitives F) (cfg : LedgerConfig)

def LockedLedger.new : LockedLedger F := ⟨EngineLedger.new P, fun _ => 0⟩

/-- One call; a reset drops the chains and the locks with them. -/
def LockedLedger.step (s : LockedLedger F) (c : Call F) : LockedLedger F where
  ledger := EngineLedger.step P cfg s.ledger c
  locked :=
    match c with
    | .reset => fun _ => 0
    | c => fun x => s.locked x + lockedBy s.ledger (EngineLedger.step P cfg s.ledger c) x

end Step

/-! ## What a call does to the bonds -/

section Bonds

open ValidatorRegistry (BondsMove)

theorem bondStake_bondsMove (L : EngineLedger F) (pub : Hex) (amount : Option Int) :
    BondsMove L.validatorRegistry (L.bondStake pub amount).1.validatorRegistry := by
  unfold bondStake
  split
  · exact BondsMove.refl _
  · split
    · exact BondsMove.refl _
    · simp only
      split
      · exact BondsMove.refl _
      · split
        · exact BondsMove.refl _
        · exact BondsMove.bond _ _ _

theorem freezeEquivocator_bondsMove (L : EngineLedger F) (ev : DoubleSpendEvidence F) :
    BondsMove L.validatorRegistry (L.freezeEquivocator ev).1.validatorRegistry := by
  unfold freezeEquivocator
  split
  · exact BondsMove.refl _
  · exact BondsMove.slash _ _

variable (P : Primitives F) (cfg : LedgerConfig) (L : EngineLedger F)

theorem applyEvidence_bondsMove (ev : DoubleSpendEvidence F) :
    BondsMove L.validatorRegistry (applyEvidence P L ev).1.validatorRegistry := by
  unfold applyEvidence
  split
  · exact freezeEquivocator_bondsMove L ev
  · exact BondsMove.refl _

theorem openAccount_bondsMove (pub priv nullifier : Hex)
    (attestations : List TypedAttestation) (bond : Bool) (now : Int) :
    BondsMove L.validatorRegistry
      (openAccount P cfg L pub priv nullifier attestations bond now).1.validatorRegistry := by
  have outcome := openAccount_outcome P cfg L pub priv nullifier attestations bond now
  generalize openAccount P cfg L pub priv nullifier attestations bond now = result at outcome
  cases outcome with
  | refused error => exact BondsMove.refl _
  | thrown identity => exact BondsMove.refl _
  | opened identity shard acc block admitted created =>
    cases bond with
    | false => exact BondsMove.refl _
    | true =>
      exact bondStake_bondsMove
        (({ L with identity }.hold pub ⟨[block], acc⟩).indexBlock block) pub (some MINT)

variable [JsNumber F]

theorem addBlock_bondsMove (block : Block F) (now : Int) :
    BondsMove L.validatorRegistry (addBlock P L block now).1.validatorRegistry := by
  have outcome := addBlock_outcome P L block now
  generalize addBlock P L block now = result at outcome
  cases outcome with
  | unchanged r => exact BondsMove.refl _
  | emptied r authentic opens refused => exact BondsMove.refl _
  | forked h existing error authentic forks =>
    change BondsMove _ (L.flagEquivocation existing block).validatorRegistry
    unfold flagEquivocation
    split
    · exact freezeEquivocator_bondsMove L _
    · exact BondsMove.refl _
  | opened acc authentic opens root =>
    rw [(appendForeign_sameConsensus P _ _ acc block now).validatorRegistry]
    exact BondsMove.refl _
  | extended h head acc authentic links checked root =>
    rw [(appendForeign_sameConsensus P L h acc block now).validatorRegistry]
    exact BondsMove.refl _

theorem applyCommitteeVote_bondsMove (vote : CommitteeVote) :
    BondsMove L.validatorRegistry (applyCommitteeVote P L vote).1.validatorRegistry := by
  unfold applyCommitteeVote
  simp only
  split
  · exact BondsMove.slash _ _
  · exact BondsMove.refl _

theorem advanceEpoch_bondsMove (betas : List Hex) (active : Option (List Hex)) :
    BondsMove L.validatorRegistry (advanceEpoch P L betas active).1.validatorRegistry := by
  unfold advanceEpoch
  simp only
  split
  · exact BondsMove.refl _
  · exact BondsMove.foldl_creditActivity _ _

theorem step_bondsMove {c : Call F} (hc : c ≠ .reset) :
    BondsMove L.validatorRegistry (step P cfg L c).validatorRegistry := by
  cases hauthor : c.author with
  | some author =>
    obtain ⟨pub, priv, now⟩ := author
    obtain ⟨r, hstep, outcome⟩ := step_of_author P cfg L hauthor
    rw [hstep, outcome.sameConsensus.validatorRegistry]
    exact BondsMove.refl _
  | none =>
    cases hclerical : c.clerical with
    | true =>
      rw [(step_clerical P cfg L hclerical).validatorRegistry]
      exact BondsMove.refl _
    | false =>
      cases c
      case addBlock => exact addBlock_bondsMove P L _ _
      case openAccount => exact openAccount_bondsMove P cfg L _ _ _ _ _ _
      case applyEvidence ev => exact applyEvidence_bondsMove P L ev
      case applyEvidenceFromBlocks a b =>
        simp only [step, applyEvidenceFromBlocks]
        split
        · exact applyEvidence_bondsMove P L _
        · exact BondsMove.refl _
      case bondStake => exact bondStake_bondsMove L _ _
      case applyCommitteeVote vote => exact applyCommitteeVote_bondsMove P L vote
      case advanceEpoch => exact advanceEpoch_bondsMove P L _ _
      case reset => exact absurd rfl hc
      case setDiscoveredProviders => exact BondsMove.refl _
      case purgeAccount => exact BondsMove.refl _
      all_goals simp [Call.author, Call.clerical] at hauthor hclerical

end Bonds

/-! ## What holds of the locks -/

/-- The bond on record is what has been locked, or has been burned. -/
structure LocksRecorded (s : LockedLedger F) : Prop where
  nonneg : ∀ x, 0 ≤ s.locked x
  recorded : ∀ x, s.ledger.validatorRegistry.isSlashed x = false →
    s.ledger.validatorRegistry.bondedOf x = s.locked x
  burned : ∀ x, s.ledger.validatorRegistry.isSlashed x = true →
    s.ledger.validatorRegistry.bondedOf x = 0

theorem locksRecorded_new (P : Primitives F) : LocksRecorded (LockedLedger.new P) :=
  ⟨fun _ => le_refl _, fun _ _ => rfl, fun _ _ => rfl⟩

variable [JsNumber F] {P : Primitives F} {cfg : LedgerConfig} {s : LockedLedger F} {c : Call F}

theorem LocksRecorded.step (hs : LocksRecorded s) (c : Call F) :
    LocksRecorded (s.step P cfg c) := by
  by_cases hreset : c = .reset
  · subst hreset
    exact ⟨fun _ => le_refl _, fun _ _ => rfl, fun _ _ => rfl⟩
  have hlocked : ∀ x, (s.step P cfg c).locked x =
      s.locked x + lockedBy s.ledger (EngineLedger.step P cfg s.ledger c) x := by
    intro x
    cases c
    case reset => exact absurd rfl hreset
    all_goals rfl
  have hmove := step_bondsMove P cfg s.ledger hreset
  refine ⟨fun x => ?_, fun x hx => ?_, fun x hx => ?_⟩
  · have hold := hs.nonneg x
    rw [hlocked, lockedBy]
    omega
  · obtain ⟨hbefore, hle⟩ := hmove.kept x hx
    have hold := hs.recorded x hbefore
    change (EngineLedger.step P cfg s.ledger c).validatorRegistry.bondedOf x = _
    rw [hlocked, lockedBy]
    omega
  · rcases hmove.burned x hx with ⟨hbefore, heq⟩ | hzero
    · exact heq.trans (hs.burned x hbefore)
    · exact hzero

/-! ## Sends -/

/-- Every send that becomes the head of its account leaves what has been locked. -/
def KeepsLock (s : LockedLedger F) (_ : Call F) (s' : LockedLedger F) : Prop :=
  ∀ x block, s'.ledger.getAccountChain x = s.ledger.getAccountChain x ++ [block] →
    block.type = .send → s.locked x ≤ block.balance

/-- A valid send of a peer that takes the balance of its account below the lock. -/
structure ForeignSpend (P : Primitives F) (s : LockedLedger F) (h : Held F)
    (head block : Block F) (acc : AccountAccumulator) : Prop where
  authentic : Authentic P s.ledger block
  links : Links s.ledger h head block
  checked : checkBlock P s.ledger head block = none
  root : RootMatches P h block acc
  type : block.type = .send
  below : block.balance < s.locked block.accountId

/-- A local send that the free balance covers only because the bond has been burned. -/
structure BurnedSpend (P : Primitives F) (s : LockedLedger F) (c : Call F) (pub priv : Hex)
    (now : Int) (h : Held F) (head block : Block F) (acc : AccountAccumulator)
    (effect : Effect F) : Prop where
  author : c.author = some (pub, priv, now)
  signs : Signs P s.ledger c pub priv now h head block acc effect
  type : block.type = .send
  slashed : s.ledger.validatorRegistry.isSlashed pub = true
  below : block.balance < s.locked pub

/-- The call neither delivers a send that overdraws a lock nor makes one on a burned bond. -/
def SparesLock (P : Primitives F) (s : LockedLedger F) : Call F → Prop
  | .addBlock block _ => ∀ h head acc, ¬ ForeignSpend P s h head block acc
  | c => ∀ pub priv now h head block acc effect,
      ¬ BurnedSpend P s c pub priv now h head block acc effect

theorem Draft.send_covered {L : EngineLedger F} {pub priv : Hex} {head : Block F} {now : Int}
    {content : BlockContent F} {effect : Effect F}
    (d : Draft P L pub priv head now c content effect) (htype : content.type = .send) :
    L.validatorRegistry.bondedOf pub ≤ content.balance := by
  cases d
  case send recipientIdentifier recipientPub amount amt _ _ _ _ covered =>
    change _ ≤ head.balance - amt
    omega
  all_goals cases htype

theorem Signs.step_of_send {L : EngineLedger F} {pub priv : Hex} {now : Int} {h : Held F}
    {head block : Block F} {acc : AccountAccumulator} {effect : Effect F}
    (signs : Signs P L c pub priv now h head block acc effect) (htype : block.type = .send) :
    EngineLedger.step P cfg L c = L.afterOwn pub h acc effect block := by
  have hheld := heldHead_eq_some.mpr ⟨signs.stored, signs.last⟩
  have draft := signs.draft
  have signed := signs.signed
  generalize hcontent : block.toBlockContent = content at draft signed
  cases draft
  case send recipientIdentifier recipientPub amount amt resolved hne positive rounded covered =>
    have hnot : ¬ head.balance - L.validatorRegistry.bondedOf pub < amt := by omega
    simp only [EngineLedger.step, createSend, resolved, hne, if_false, hheld, positive,
      Bool.false_eq_true, rounded, hnot, appendOwn, signed]
    rfl
  all_goals
    rw [hcontent] at htype
    cases htype

/-- A send that a call appends keeps the lock, unless it is one of the two that do not. -/
theorem keepsLock_step (hs : LocksRecorded s) (hc : SparesLock P s c) :
    KeepsLock s c (s.step P cfg c) := by
  intro x block hgrows htype
  have hgrows : (EngineLedger.step P cfg s.ledger c).getAccountChain x =
      s.ledger.getAccountChain x ++ [block] := hgrows
  by_contra hbelow
  rw [not_le] at hbelow
  cases hauthor : c.author with
  | some author =>
    obtain ⟨pub, priv, now⟩ := author
    obtain ⟨r, hstep, outcome⟩ := step_of_author P cfg s.ledger hauthor
    rw [hstep] at hgrows
    rcases outcome.signs with ⟨-, hsame⟩ | ⟨h, head, b, acc, effect, signs, rfl⟩
    · rw [hsame] at hgrows
      simp at hgrows
    · rw [signs.getAccountChain] at hgrows
      split at hgrows
      · rename_i hx
        subst hx
        obtain ⟨-, hb⟩ := List.append_inj' hgrows rfl
        cases hb
        have hcovered := signs.draft.send_covered htype
        cases hslashed : s.ledger.validatorRegistry.isSlashed pub with
        | false =>
          rw [hs.recorded pub hslashed] at hcovered
          omega
        | true =>
          have hburned : BurnedSpend P s c pub priv now h head block acc effect :=
            ⟨hauthor, signs, htype, hslashed, hbelow⟩
          cases c
          case addBlock => cases hauthor
          all_goals exact hc _ _ _ _ _ _ _ _ hburned
      · simp at hgrows
  | none =>
    have hlonger : ¬ (EngineLedger.step P cfg s.ledger c).getAccountChain x <+:
        s.ledger.getAccountChain x := by
      intro hfront
      have hlength := hfront.length_le
      rw [hgrows, List.length_append, List.length_singleton] at hlength
      omega
    cases step_outcome P cfg s.ledger c with
    | quiet h => exact hlonger (h.chain x)
    | froze h => exact hlonger (h.chain x ▸ List.prefix_rfl)
    | reset h =>
      refine hlonger ?_
      rw [h]
      exact List.nil_prefix
    | appended b origin h =>
      rw [h.chain x] at hgrows
      split at hgrows
      · rename_i haccount
        subst haccount
        obtain ⟨-, hb⟩ := List.append_inj' hgrows rfl
        cases hb
        cases origin with
        | drafted author stored last draft =>
          rw [hauthor] at author
          cases author
        | opened identity admitted account type => rw [type] at htype; cases htype
        | genesis authentic opens => rw [opens.type] at htype; cases htype
        | linked authentic links checked root =>
          exact hc _ _ _ ⟨authentic, links, checked, root, htype, hbelow⟩
      · simp at hgrows

theorem sparesLock_of_keepsLock (hkeeps : KeepsLock s c (s.step P cfg c)) :
    SparesLock P s c := by
  have hlocal : ∀ pub priv now h head block acc effect,
      ¬ BurnedSpend P s c pub priv now h head block acc effect := by
    rintro pub priv now h head block acc effect ⟨author, signs, htype, _, hbelow⟩
    have hchain := signs.getAccountChain pub
    have hstep : EngineLedger.step P cfg s.ledger c = _ := signs.step_of_send htype
    rw [if_pos rfl, ← hstep] at hchain
    have hkept := hkeeps pub block hchain htype
    omega
  cases c
  case addBlock block now =>
    rintro h head acc ⟨authentic, links, checked, root, htype, hbelow⟩
    have hadd := addBlock_extends now authentic links checked root
    have hchain : (EngineLedger.step P cfg s.ledger (.addBlock block now)).getAccountChain
        block.accountId = s.ledger.getAccountChain block.accountId ++ [block] := by
      rw [EngineLedger.step, hadd, getAccountChain_appendForeign, if_pos rfl,
        getAccountChain_of_held links.stored]
    have hkept := hkeeps block.accountId block hchain htype
    omega
  all_goals exact hlocal

/-- Over every run: each send that becomes the head of its account leaves what bonding has
locked there, if and only if no peer delivers a valid send that overdraws a lock and no
account whose bond has been burned sends more than the lock leaves. -/
theorem lock_kept_iff (P : Primitives F) (cfg : LedgerConfig) (calls : List (Call F)) :
    Run.EveryStep (LockedLedger.step P cfg) KeepsLock (LockedLedger.new P) calls ↔
      Run.StepsMeet (LockedLedger.step P cfg) (SparesLock P) (LockedLedger.new P) calls :=
  Run.everyStep_iff_stepsMeet (I := LocksRecorded) (fun _ c hs => hs.step c)
    (fun _ _ hs => ⟨sparesLock_of_keepsLock, keepsLock_step hs⟩) (locksRecorded_new P)

/-! ## A bond that a peer's send overdraws -/

/-- Alice opens her account and bonds her whole mint. -/
def bondedOpening : Call Rat := .openAccount "alice" "alice" "nullifier" [] true 0

/-- The send of the whole mint that she signs next. -/
def overdraft : Block Rat :=
  let L := step Sample.primitives Sample.config (new Sample.primitives) bondedOpening
  Sample.continuing L { (Sample.header L "alice") with
    type := .send, recipient := some "bob", amount := some MINT, balance := 0 }

/-- A peer's send spends the whole bond of an account. -/
theorem bond_spent_by_peer : ¬ ∀ calls : List (Call Rat),
    Run.EveryStep (LockedLedger.step Sample.primitives Sample.config) KeepsLock
      (LockedLedger.new Sample.primitives) calls := by
  intro hall
  have hkept := (hall [bondedOpening, .addBlock overdraft 1]).2.1 "alice" overdraft
    (by decide +kernel) (by decide +kernel)
  exact absurd hkept (by decide +kernel)

end NeuronWeb.EngineLedger
