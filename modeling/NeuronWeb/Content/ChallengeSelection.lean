/-
  Content/ChallengeSelection: which objects a provider is asked for
  (`engine/content/custody-sampling.ts`).

  The objects are drawn from a 32-bit generator and every object is taken once.  The middle
  step of the generator shifts a signed word, so that it is not one to one: some seeds lead to
  zero, where it stays.  The sample is full exactly when the generator gives enough different
  objects before the guard stops it.
-/
import NeuronWeb.Foundation.JsMap
import Mathlib.Data.Finset.Card
import Mathlib.Data.List.Sort
import Mathlib.Data.Rat.Floor

set_option autoImplicit false

namespace NeuronWeb

/-! ## The selection -/

/-- A `number`: not-a-number, an infinity or a finite value. -/
inductive ExactNumber
  | nan
  | infinity (positive : Bool)
  | finite (q : ℚ)
  deriving DecidableEq

/-- `x >>> 0`: the value without its fraction, modulo `2 ^ 32`. -/
def ExactNumber.toUint32 : ExactNumber → BitVec 32
  | nan => 0
  | infinity _ => 0
  | finite q => BitVec.ofInt 32 (if 0 ≤ q then ⌊q⌋ else ⌈q⌉)

/-- `Math.min(Math.max(0, Math.floor(challenges)), objectCount)`; `none` is `NaN`. -/
def sampleSize : ExactNumber → Nat → Option Nat
  | .nan, _ => none
  | .infinity positive, objectCount => some (bif positive then objectCount else 0)
  | .finite q, objectCount => some (min (max 0 ⌊q⌋) objectCount).toNat

/-- One step of the generator: two shifts of the word, and between them one of the word as a
signed number. -/
def xorshift (a : BitVec 32) : BitVec 32 :=
  let a := a ^^^ (a <<< 13)
  let a := a ^^^ a.sshiftRight 17
  a ^^^ (a <<< 5)

/-- The loop of `selectChallenges`: draw until there are enough objects, or the guard is used
up. -/
def drawChallenges (objectCount : Nat) (k : Option Nat) :
    Nat → BitVec 32 → JsSet Nat → JsSet Nat
  | 0, _, chosen => chosen
  | guard + 1, a, chosen =>
    if k.any fun k => decide (chosen.keys.length < k) then
      let a := xorshift a
      drawChallenges objectCount k guard a (chosen.add (a.toNat % objectCount))
    else chosen

/-- The word that the generator starts from. -/
def startWord (seed : ExactNumber) : BitVec 32 :=
  if seed.toUint32 = 0 then 1 else seed.toUint32

/-- Which objects to challenge, from a seed the provider cannot choose. -/
def selectChallenges (seed : ExactNumber) (objectCount : Nat) (challenges : ExactNumber) :
    List Nat :=
  (drawChallenges objectCount (sampleSize challenges objectCount) (objectCount * 20)
    (startWord seed) .empty).keys.mergeSort fun x y => decide (x ≤ y)

/-- The objects that the generator gives, one after another. -/
def objectsDrawn (objectCount : Nat) : Nat → BitVec 32 → List Nat
  | 0, _ => []
  | n + 1, a => (xorshift a).toNat % objectCount :: objectsDrawn objectCount n (xorshift a)

/-! ## The size of a sample -/

section Draw

variable {objectCount k : Nat}

theorem toFinset_keys_add (chosen : JsSet Nat) (i : Nat) :
    (chosen.add i).keys.toFinset = insert i chosen.keys.toFinset := by
  ext j
  rw [List.mem_toFinset, Finset.mem_insert, List.mem_toFinset, ← JsSet.has_iff_mem_keys,
    ← JsSet.has_iff_mem_keys, JsSet.has_add, Bool.or_eq_true, decide_eq_true_eq, eq_comm]

theorem card_keys (chosen : JsSet Nat) : chosen.keys.toFinset.card = chosen.keys.length :=
  List.toFinset_card_of_nodup chosen.nodup

theorem card_keys_add_le (chosen : JsSet Nat) (i : Nat) :
    (chosen.add i).keys.length ≤ chosen.keys.length + 1 := by
  rw [← card_keys, ← card_keys, toFinset_keys_add]
  exact Finset.card_insert_le i _

theorem length_drawChallenges : ∀ (guard : Nat) (a : BitVec 32) (chosen : JsSet Nat),
    chosen.keys.length ≤ k →
    (drawChallenges objectCount (some k) guard a chosen).keys.length =
      min k (chosen.keys.toFinset ∪ (objectsDrawn objectCount guard a).toFinset).card
  | 0, a, chosen, hle => by
    simp only [drawChallenges, objectsDrawn, List.toFinset_nil, Finset.union_empty, card_keys]
    exact (min_eq_right hle).symm
  | guard + 1, a, chosen, hle => by
    simp only [drawChallenges, objectsDrawn, Option.any_some, decide_eq_true_eq,
      List.toFinset_cons]
    split
    case isTrue hlt =>
      have hnext := (card_keys_add_le chosen ((xorshift a).toNat % objectCount)).trans hlt
      rw [length_drawChallenges guard (xorshift a) _ hnext, toFinset_keys_add,
        Finset.insert_union, Finset.union_insert]
    case isFalse hge =>
      have hk : chosen.keys.length = k := le_antisymm hle (not_lt.mp hge)
      have hchosen : chosen.keys.toFinset ⊆ chosen.keys.toFinset ∪
          insert ((xorshift a).toNat % objectCount)
            (objectsDrawn objectCount guard (xorshift a)).toFinset :=
        Finset.subset_union_left
      have hcard := Finset.card_le_card hchosen
      rw [card_keys, hk] at hcard
      rw [hk, min_eq_left hcard]

theorem lt_of_mem_drawChallenges (hpos : 0 < objectCount) {K : Option Nat} :
    ∀ (guard : Nat) (a : BitVec 32) (chosen : JsSet Nat), (∀ i ∈ chosen.keys, i < objectCount) →
    ∀ i ∈ (drawChallenges objectCount K guard a chosen).keys, i < objectCount
  | 0, a, chosen, hchosen => hchosen
  | guard + 1, a, chosen, hchosen => by
    simp only [drawChallenges]
    split
    case isTrue =>
      refine lt_of_mem_drawChallenges hpos guard (xorshift a) _ fun i hi => ?_
      rw [← List.mem_toFinset, toFinset_keys_add, Finset.mem_insert, List.mem_toFinset] at hi
      rcases hi with rfl | hi
      · exact Nat.mod_lt _ hpos
      · exact hchosen i hi
    case isFalse => exact hchosen

end Draw

/-! ## Full samples -/

/-- A sample of the promised size: different objects in increasing order. -/
structure FullSample (objectCount : Nat) (challenges : ExactNumber) (picks : List Nat) : Prop where
  size : sampleSize challenges objectCount = some picks.length
  increasing : picks.Pairwise (· < ·)
  inRange : ∀ i ∈ picks, i < objectCount

theorem selectChallenges_increasing (seed : ExactNumber) (objectCount : Nat)
    (challenges : ExactNumber) :
    (selectChallenges seed objectCount challenges).Pairwise (· < ·) := by
  unfold selectChallenges
  generalize drawChallenges objectCount _ _ _ _ = chosen
  have hsorted : (chosen.keys.mergeSort fun x y => decide (x ≤ y)).Pairwise (· ≤ ·) :=
    List.pairwise_mergeSort' (· ≤ ·) chosen.keys
  have hnodup : (chosen.keys.mergeSort fun x y => decide (x ≤ y)).Nodup :=
    (List.mergeSort_perm chosen.keys _).nodup_iff.mpr chosen.nodup
  exact hsorted.imp₂ (fun x y hle hne => lt_of_le_of_ne hle hne) hnodup

theorem selectChallenges_inRange (seed : ExactNumber) (objectCount : Nat)
    (challenges : ExactNumber) : ∀ i ∈ selectChallenges seed objectCount challenges,
    i < objectCount := by
  intro i hi
  have hmem := List.mem_mergeSort.mp hi
  rcases Nat.eq_zero_or_pos objectCount with rfl | hpos
  · rw [Nat.zero_mul] at hmem
    exact absurd hmem List.not_mem_nil
  · exact lt_of_mem_drawChallenges hpos _ _ _ (fun i hi => absurd hi List.not_mem_nil) i hmem

/-- A sample is full exactly when its size is a number and the generator gives that many
different objects within the guard. -/
theorem selectChallenges_full_iff (seed : ExactNumber) (objectCount : Nat)
    (challenges : ExactNumber) :
    FullSample objectCount challenges (selectChallenges seed objectCount challenges) ↔
      ∃ k, sampleSize challenges objectCount = some k ∧
        k ≤ (objectsDrawn objectCount (objectCount * 20) (startWord seed)).toFinset.card := by
  have hlength : ∀ k, sampleSize challenges objectCount = some k →
      (selectChallenges seed objectCount challenges).length =
        min k (objectsDrawn objectCount (objectCount * 20) (startWord seed)).toFinset.card := by
    intro k hk
    have hnone : (JsMap.empty : JsSet Nat).keys.toFinset = ∅ := rfl
    rw [selectChallenges, List.length_mergeSort, hk,
      length_drawChallenges _ _ _ (Nat.zero_le k), hnone, Finset.empty_union]
  constructor
  · rintro ⟨hsize, -, -⟩
    refine ⟨_, hsize, ?_⟩
    have hk := hlength _ hsize
    exact hk ▸ min_le_right _ _
  · rintro ⟨k, hk, hle⟩
    refine ⟨?_, selectChallenges_increasing seed objectCount challenges,
      selectChallenges_inRange seed objectCount challenges⟩
    rw [hlength k hk, min_eq_left hle, hk]

/-- A seed from which the generator goes to zero at once, so that the second of two objects is
never drawn. -/
theorem selectChallenges_stuck :
    xorshift (startWord (.finite 0xFC001FFF)) = 0 ∧ xorshift 0 = 0 ∧
    sampleSize (.finite 2) 2 = some 2 ∧
    selectChallenges (.finite 0xFC001FFF) 2 (.finite 2) = [0] := by
  refine ⟨by decide +kernel, by decide, by decide +kernel, ?_⟩
  have hkeys : (drawChallenges 2 (sampleSize (.finite 2) 2) (2 * 20)
      (startWord (.finite 0xFC001FFF)) .empty).keys = [0] := by decide +kernel
  rw [selectChallenges, hkeys, List.mergeSort_singleton]

end NeuronWeb
