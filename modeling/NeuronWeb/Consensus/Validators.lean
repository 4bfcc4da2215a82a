/-
  Consensus/Validators: voting weight and the validator set
  (`engine/consensus/weight.ts`, `validators.ts`).

  Per-account bonded stake and activity age, with bonding rules and slashing.  Stakes
  are `bigint` and stay `Int`; weights are doubles and stay in the abstract number
  type.
-/
import NeuronWeb.Core.Hash

set_option autoImplicit false

namespace NeuronWeb

/-- `MINT_AMOUNT`: the engine's own mint, one million. -/
def MINT_AMOUNT : Int := 1000000

/-! ## Voting weight -/

/-- Max bonded stake counted toward weight, per account. -/
def STAKE_CAP : Int := MINT_AMOUNT

/-- Active epochs needed for the age multiplier to fully mature. -/
def AGE_SATURATION_EPOCHS : Int := 52

/-- A fully-aged validator counts this many times a brand-new one. -/
def MAX_AGE_MULTIPLIER : Int := 4

section Weight

variable (F : Type) [JsNumber F]

/-- Saturating, activity-based age multiplier. -/
def ageMultiplier (activityEpochs : Int) : F :=
  let a := max 0 (min activityEpochs AGE_SATURATION_EPOCHS)
  JsNumber.add (JsNumber.ofInt 1)
    (JsNumber.mul (JsNumber.ofInt (MAX_AGE_MULTIPLIER - 1))
      (JsNumber.div (JsNumber.ofInt a) (JsNumber.ofInt AGE_SATURATION_EPOCHS)))

/-- Concave stake weight of a bonded amount, capped. -/
def stakeWeight (bonded : Int) (cap : Int := STAKE_CAP) : F :=
  JsNumber.sqrt (JsNumber.ofInt (if bonded < cap then bonded else cap))

/-- Full voting weight of a validator. -/
def votingWeight (bonded activityEpochs : Int) : F :=
  JsNumber.mul (ageMultiplier F activityEpochs) (stakeWeight F bonded)

end Weight

/-! ## The registry -/

structure ValidatorState where
  bonded : Int
  activityEpochs : Int
  slashed : Bool
  deriving DecidableEq, Repr, Inhabited

structure ValidatorRegistry where
  state : JsMap Hex ValidatorState
  /-- Max bonded stake per account. -/
  cap : Int
  /-- Minimum bond to be an eligible validator. -/
  minBond : Int

namespace ValidatorRegistry

/-- `new ValidatorRegistry(cap, minBond)`. -/
def new (cap : Int := STAKE_CAP) (minBond : Int := 1) : ValidatorRegistry :=
  ⟨JsMap.empty, cap, minBond⟩

/-- `ensure(id)`: the stored state, or the fresh one that `ensure` stores. -/
def ensure (r : ValidatorRegistry) (id : Hex) : ValidatorState :=
  (r.state.get? id).getD ⟨0, 0, false⟩

def put (r : ValidatorRegistry) (id : Hex) (s : ValidatorState) : ValidatorRegistry :=
  { r with state := r.state.set id s }

/-- `bond(id, amount)`: the reason for a refusal, if any.  A refusal past the amount
check has still stored the fresh state. -/
def bond (r : ValidatorRegistry) (id : Hex) (amount : Int) :
    ValidatorRegistry × Option String :=
  if amount ≤ 0 then (r, some "bond amount must be positive")
  else
    let s := r.ensure id
    if s.slashed then (r.put id s, some "validator is slashed")
    else if s.bonded + amount > r.cap then
      (r.put id s, some ("bond exceeds cap (" ++ toString r.cap ++ ")"))
    else (r.put id { s with bonded := s.bonded + amount }, none)

def unbond (r : ValidatorRegistry) (id : Hex) (amount : Int) :
    ValidatorRegistry × Option String :=
  match r.state.get? id with
  | none => (r, some "invalid unbond amount")
  | some s =>
    if amount ≤ 0 ∨ amount > s.bonded then (r, some "invalid unbond amount")
    else (r.put id { s with bonded := s.bonded - amount }, none)

/-- Credit one or more epochs of sustained participation. -/
def creditActivity (r : ValidatorRegistry) (id : Hex) (epochs : Int := 1) :
    ValidatorRegistry :=
  if epochs ≤ 0 then r
  else
    let s := r.ensure id
    r.put id { s with activityEpochs := s.activityEpochs + epochs }

/-- Slash a validator: burn its entire bond and bar it.  Returns the amount burned. -/
def slash (r : ValidatorRegistry) (id : Hex) : ValidatorRegistry × Int :=
  let s := r.ensure id
  (r.put id { s with bonded := 0, slashed := true }, s.bonded)

def bondedOf (r : ValidatorRegistry) (id : Hex) : Int :=
  ((r.state.get? id).map ValidatorState.bonded).getD 0

def activityOf (r : ValidatorRegistry) (id : Hex) : Int :=
  ((r.state.get? id).map ValidatorState.activityEpochs).getD 0

def isSlashed (r : ValidatorRegistry) (id : Hex) : Bool :=
  ((r.state.get? id).map ValidatorState.slashed).getD false

/-- The eligibility test that `isValidator`, `validators` and `totalWeight` share. -/
def eligible (r : ValidatorRegistry) (s : ValidatorState) : Bool :=
  !s.slashed && decide (r.minBond ≤ s.bonded)

/-- Eligible to be sampled into committees. -/
def isValidator (r : ValidatorRegistry) (id : Hex) : Bool :=
  match r.state.get? id with
  | some s => r.eligible s
  | none => false

/-- All currently-eligible validators. -/
def validators (r : ValidatorRegistry) : List Hex :=
  (r.state.entries.filter fun e => r.eligible e.2).map Prod.fst

section Weight

variable {F : Type} [JsNumber F]

def weightOf (r : ValidatorRegistry) (id : Hex) : F :=
  match r.state.get? id with
  | none => JsNumber.ofInt 0
  | some s => if s.slashed then JsNumber.ofInt 0 else votingWeight F s.bonded s.activityEpochs

/-- Summed voting weight of all eligible validators: the sortition denominator. -/
def totalWeight (r : ValidatorRegistry) : F :=
  r.state.values.foldl (fun total s =>
    if r.eligible s then JsNumber.add total (votingWeight F s.bonded s.activityEpochs)
    else total) (JsNumber.ofInt 0)

end Weight

/-! ## What slashing leaves -/

@[simp] theorem isSlashed_new (minBond : Int) (j : Hex) : (new minBond).isSlashed j = false :=
  rfl

section

variable (r : ValidatorRegistry)

theorem isSlashed_put (id j : Hex) (s : ValidatorState) :
    (r.put id s).isSlashed j = if id = j then s.slashed else r.isSlashed j := by
  unfold isSlashed put
  rw [JsMap.get?_set]
  split <;> rfl

theorem isSlashed_slash (id j : Hex) :
    (r.slash id).1.isSlashed j = (decide (id = j) || r.isSlashed j) := by
  rw [slash, isSlashed_put]
  by_cases h : id = j <;> simp [h]

theorem bondedOf_put (id j : Hex) (s : ValidatorState) :
    (r.put id s).bondedOf j = if id = j then s.bonded else r.bondedOf j := by
  unfold bondedOf put
  rw [JsMap.get?_set]
  split <;> rfl

theorem bonded_ensure (id : Hex) : (r.ensure id).bonded = r.bondedOf id := by
  unfold ensure bondedOf
  cases r.state.get? id <;> rfl

theorem bondedOf_le_bond (id j : Hex) (amount : Int) :
    r.bondedOf j ≤ (r.bond id amount).1.bondedOf j := by
  have hensured : ∀ s : ValidatorState, r.bondedOf id ≤ s.bonded →
      r.bondedOf j ≤ (r.put id s).bondedOf j := by
    intro s hs
    rw [bondedOf_put]
    split
    · rename_i hj
      exact hj ▸ hs
    · exact le_refl _
  have hbonded := bonded_ensure r id
  unfold bond
  split
  · exact le_refl _
  · simp only
    split
    · exact hensured _ hbonded.ge
    · split
      · exact hensured _ hbonded.ge
      · exact hensured _ (by simp only; omega)

theorem slashed_ensure (id : Hex) : (r.ensure id).slashed = r.isSlashed id := by
  unfold ensure isSlashed
  cases r.state.get? id <;> rfl

theorem isSlashed_put_ensure (id j : Hex) {s : ValidatorState}
    (hs : s.slashed = (r.ensure id).slashed) : (r.put id s).isSlashed j = r.isSlashed j := by
  rw [isSlashed_put, hs, slashed_ensure]
  split
  · rename_i h
    rw [h]
  · rfl

end

/-- Bonding neither slashes nor clears a slash. -/
@[simp] theorem isSlashed_bond (r : ValidatorRegistry) (id j : Hex) (amount : Int) :
    (r.bond id amount).1.isSlashed j = r.isSlashed j := by
  unfold bond
  by_cases hamount : amount ≤ 0
  · simp [hamount]
  · simp only [hamount, if_false]
    split
    · exact isSlashed_put_ensure r id j rfl
    · split
      · exact isSlashed_put_ensure r id j rfl
      · exact isSlashed_put_ensure r id j rfl

@[simp] theorem isSlashed_creditActivity (r : ValidatorRegistry) (id j : Hex)
    (epochs : Int) : (r.creditActivity id epochs).isSlashed j = r.isSlashed j := by
  unfold creditActivity
  split
  · rfl
  · exact isSlashed_put_ensure r id j rfl

/-! ## What the operations do to a bond -/

/-- No bond shrinks unless its account is slashed, and a slash burns the whole bond. -/
structure BondsMove (r r' : ValidatorRegistry) : Prop where
  kept : ∀ x, r'.isSlashed x = false → r.isSlashed x = false ∧ r.bondedOf x ≤ r'.bondedOf x
  burned : ∀ x, r'.isSlashed x = true →
    (r.isSlashed x = true ∧ r'.bondedOf x = r.bondedOf x) ∨ r'.bondedOf x = 0

namespace BondsMove

theorem refl (r : ValidatorRegistry) : BondsMove r r :=
  ⟨fun _ h => ⟨h, le_refl _⟩, fun _ h => .inl ⟨h, rfl⟩⟩

theorem trans {r r' r'' : ValidatorRegistry} (h : BondsMove r r') (h' : BondsMove r' r'') :
    BondsMove r r'' where
  kept x hx := by
    obtain ⟨hx', hle'⟩ := h'.kept x hx
    obtain ⟨hx, hle⟩ := h.kept x hx'
    exact ⟨hx, hle.trans hle'⟩
  burned x hx := by
    rcases h'.burned x hx with ⟨hx', heq'⟩ | hzero
    · rw [heq']
      exact h.burned x hx'
    · exact .inr hzero

section

variable (r : ValidatorRegistry)

theorem put_ensure (id : Hex) {s : ValidatorState} (hslashed : s.slashed = r.isSlashed id)
    (hbonded : if s.slashed then s.bonded = r.bondedOf id else r.bondedOf id ≤ s.bonded) :
    BondsMove r (r.put id s) where
  kept x hx := by
    rw [isSlashed_put] at hx
    rw [bondedOf_put]
    split at hx
    · rename_i hid
      subst hid
      simp only [hx, Bool.false_eq_true, if_false] at hbonded
      exact ⟨hslashed ▸ hx, by simpa using hbonded⟩
    · rename_i hid
      exact ⟨hx, by simp [hid]⟩
  burned x hx := by
    rw [isSlashed_put] at hx
    rw [bondedOf_put]
    split at hx
    · rename_i hid
      subst hid
      simp only [hx, if_true] at hbonded
      exact .inl ⟨hslashed ▸ hx, by simpa using hbonded⟩
    · rename_i hid
      exact .inl ⟨hx, by simp [hid]⟩

theorem bond (id : Hex) (amount : Int) : BondsMove r (r.bond id amount).1 := by
  have hslashed := slashed_ensure r id
  have hbonded := bonded_ensure r id
  have hensured : BondsMove r (r.put id (r.ensure id)) := by
    refine put_ensure r id hslashed ?_
    split
    · exact hbonded
    · exact hbonded.ge
  unfold ValidatorRegistry.bond
  split
  · exact refl r
  · rename_i hpos
    simp only
    split
    · exact hensured
    · rename_i hfree
      split
      · exact hensured
      · refine put_ensure r id hslashed ?_
        simp only [hfree, Bool.false_eq_true, if_false]
        omega

theorem slash (id : Hex) : BondsMove r (r.slash id).1 where
  kept x hx := by
    rw [isSlashed_slash, Bool.or_eq_false_iff, decide_eq_false_iff_not] at hx
    rw [ValidatorRegistry.slash, bondedOf_put, if_neg hx.1]
    exact ⟨hx.2, le_refl _⟩
  burned x hx := by
    rw [isSlashed_slash, Bool.or_eq_true, decide_eq_true_eq] at hx
    rw [ValidatorRegistry.slash, bondedOf_put]
    split
    · exact .inr rfl
    · rename_i hid
      exact .inl ⟨hx.resolve_left hid, rfl⟩

theorem creditActivity (id : Hex) (epochs : Int) : BondsMove r (r.creditActivity id epochs) := by
  unfold ValidatorRegistry.creditActivity
  split
  · exact refl r
  · refine put_ensure r id (slashed_ensure r id) ?_
    have hbonded := bonded_ensure r id
    split
    · exact hbonded
    · exact hbonded.ge

end

theorem foldl_creditActivity (active : List Hex) (r : ValidatorRegistry) :
    BondsMove r (active.foldl (fun r id => r.creditActivity id 1) r) := by
  induction active generalizing r with
  | nil => exact refl r
  | cons id rest ih => exact (creditActivity r id 1).trans (ih _)

end BondsMove

end ValidatorRegistry

end NeuronWeb
