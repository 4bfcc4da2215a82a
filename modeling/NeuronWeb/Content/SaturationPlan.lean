/-
  Content/SaturationPlan: how many holders a file should have, from measured demand
  (`engine/content/device-capacity.ts`).

  Numbers are exact rationals.  A fleet is balanced when its demand stays below the high-water
  mark: a balanced fleet is never asked to grow, and releasing what a plan asks to release
  keeps it balanced.
-/
import Mathlib.Algebra.Order.BigOperators.Group.List
import Mathlib.Data.List.Sort
import Mathlib.Data.Rat.Floor

set_option autoImplicit false

namespace NeuronWeb

/-! ## The plan -/

/-- Fraction of aggregate capacity in use at which another holder is placed. -/
def HIGH_WATER : ℚ := 3 / 4

/-- Fraction below which a holder is released. -/
def LOW_WATER : ℚ := 7 / 20

structure SaturationPlan where
  /-- Aggregate concurrent reads the current holders can serve. -/
  capacity : ℚ
  /-- Measured utilisation; `none` is the source's `Infinity`. -/
  ratio : Option ℚ
  /-- Holders wanted now. -/
  target : ℚ
  /-- Why, in one phrase. -/
  reason : String

/-- `x.toFixed(0)`, below the size at which the source switches to an exponent. -/
def toFixed0 (x : ℚ) : String :=
  (if x < 0 then "-" else "") ++ toString ⌊|x| + 1 / 2⌋

/-- The capacity a holder that might be added is taken to have. -/
def typicalOf (holderCapacities : List ℚ) (typicalCapacity : Option ℚ) : ℚ :=
  let holders := holderCapacities.length
  let mean := if 0 < holders then holderCapacities.sum / holders else 1
  max 1 (typicalCapacity.getD mean)

/-- How many more holders bring the ratio back to `HIGH_WATER`. -/
def extraHolders (holderCapacities : List ℚ) (demandConcurrent : ℚ)
    (typicalCapacity : Option ℚ) : ℤ :=
  ⌈(demandConcurrent / HIGH_WATER - holderCapacities.sum) /
    typicalOf holderCapacities typicalCapacity⌉

/-- The capacities, the smallest first. -/
def ordered (holderCapacities : List ℚ) : List ℚ :=
  holderCapacities.mergeSort fun a b => decide (a ≤ b)

/-- The release loop: how many holders stay, the smallest going first. -/
def shed (floor minCapacity : ℚ) : List ℚ → ℕ → ℚ → ℕ
  | [], target, _ => target
  | c :: rest, target, remaining =>
    if (target : ℚ) ≤ floor then target
    else if remaining - c < minCapacity then target
    else shed floor minCapacity rest (target - 1) (remaining - c)

/-- `planBySaturation`: how many holders a file should have. -/
def planBySaturation (holderCapacities : List ℚ) (demandConcurrent floor cap : ℚ)
    (typicalCapacity : Option ℚ) : SaturationPlan :=
  let capacity := holderCapacities.sum
  let holders := holderCapacities.length
  if capacity ≤ 0 then
    ⟨0, none, max floor holders, "no serving capacity — cannot judge"⟩
  else
    let ratio := demandConcurrent / capacity
    if HIGH_WATER < ratio then
      let extra := extraHolders holderCapacities demandConcurrent typicalCapacity
      ⟨capacity, some ratio, min cap (max floor (holders + extra)),
        "saturated at " ++ toFixed0 (ratio * 100) ++ "% — placing " ++ toString extra ++ " more"⟩
    else if ratio < LOW_WATER ∧ floor < holders then
      let target := shed floor (demandConcurrent / HIGH_WATER) (ordered holderCapacities)
        holders capacity
      ⟨capacity, some ratio, max floor target,
        if target < holders then
          "demand at " ++ toFixed0 (ratio * 100) ++ "% — releasing " ++ toString (holders - target)
        else "demand at " ++ toFixed0 (ratio * 100) ++ "% — nothing safe to release"⟩
    else ⟨capacity, some ratio, max floor holders, "steady at " ++ toFixed0 (ratio * 100) ++ "%"⟩

/-! ## The branches -/

/-- The branch that places holders. -/
def Saturated (holderCapacities : List ℚ) (demandConcurrent : ℚ) : Prop :=
  0 < holderCapacities.sum ∧ HIGH_WATER < demandConcurrent / holderCapacities.sum

/-- The branch that releases holders. -/
def Idle (holderCapacities : List ℚ) (demandConcurrent floor : ℚ) : Prop :=
  0 < holderCapacities.sum ∧ demandConcurrent / holderCapacities.sum < LOW_WATER ∧
    floor < holderCapacities.length

section Branches

variable {caps : List ℚ} {demand floor cap : ℚ} {typical : Option ℚ}

theorem target_of_saturated (h : Saturated caps demand) :
    (planBySaturation caps demand floor cap typical).target =
      min cap (max floor (caps.length + extraHolders caps demand typical)) := by
  have hcap : ¬caps.sum ≤ 0 := not_le.mpr h.1
  simp only [planBySaturation, if_neg hcap, if_pos h.2]

theorem not_saturated_of_idle (h : Idle caps demand floor) : ¬Saturated caps demand := by
  intro hs
  have hband : LOW_WATER < HIGH_WATER := by norm_num [LOW_WATER, HIGH_WATER]
  exact absurd (h.2.1.trans (hband.trans hs.2)) (lt_irrefl _)

theorem target_of_idle (h : Idle caps demand floor) :
    (planBySaturation caps demand floor cap typical).target =
      max floor (shed floor (demand / HIGH_WATER) (ordered caps) caps.length caps.sum) := by
  have hcap : ¬caps.sum ≤ 0 := not_le.mpr h.1
  have hhigh : ¬HIGH_WATER < demand / caps.sum := fun hs => not_saturated_of_idle h ⟨h.1, hs⟩
  have hlow : demand / caps.sum < LOW_WATER ∧ floor < caps.length := h.2
  simp only [planBySaturation, if_neg hcap, if_neg hhigh, if_pos hlow]

theorem target_of_steady (hs : ¬Saturated caps demand) (hi : ¬Idle caps demand floor) :
    (planBySaturation caps demand floor cap typical).target = max floor caps.length := by
  by_cases hcap : caps.sum ≤ 0
  · simp only [planBySaturation, if_pos hcap]
  · have hpos : 0 < caps.sum := not_le.mp hcap
    have hhigh : ¬HIGH_WATER < demand / caps.sum := fun h => hs ⟨hpos, h⟩
    have hlow : ¬(demand / caps.sum < LOW_WATER ∧ floor < caps.length) := fun h => hi ⟨hpos, h⟩
    simp only [planBySaturation, if_neg hcap, if_neg hhigh, if_neg hlow]

theorem ratio_of_pos (hpos : 0 < caps.sum) :
    (planBySaturation caps demand floor cap typical).ratio = some (demand / caps.sum) := by
  have hcap : ¬caps.sum ≤ 0 := not_le.mpr hpos
  simp only [planBySaturation, if_neg hcap]
  split
  · rfl
  · split
    · rfl
    · rfl

end Branches

/-! ## The release loop -/

section Shed

variable {floor minCapacity : ℚ}

theorem shed_keeps : ∀ (l : List ℚ) (target : ℕ) (remaining : ℚ), l.length ≤ target →
    ∃ gone ≤ l.length, shed floor minCapacity l target remaining + gone = target ∧
      ∀ j < gone, minCapacity ≤ remaining - (l.take (j + 1)).sum
  | [], target, remaining, _ => ⟨0, le_rfl, rfl, fun j hj => absurd hj (Nat.not_lt_zero j)⟩
  | c :: rest, target, remaining, hlen => by
    simp only [shed]
    split
    case isTrue => exact ⟨0, Nat.zero_le _, rfl, fun j hj => absurd hj (Nat.not_lt_zero j)⟩
    case isFalse =>
      split
      case isTrue => exact ⟨0, Nat.zero_le _, rfl, fun j hj => absurd hj (Nat.not_lt_zero j)⟩
      case isFalse hc =>
        have hrest : rest.length ≤ target - 1 := by
          simp only [List.length_cons] at hlen
          omega
        obtain ⟨gone, hgone, hsum, hkept⟩ := shed_keeps rest (target - 1) (remaining - c) hrest
        refine ⟨gone + 1, by simpa using hgone, ?_, ?_⟩
        · simp only [List.length_cons] at hlen
          omega
        · intro j hj
          cases j with
          | zero => simpa using not_lt.mp hc
          | succ j =>
            have hj' := hkept j (Nat.lt_of_succ_lt_succ hj)
            rw [List.take_succ_cons, List.sum_cons]
            linarith

end Shed

/-! ## The bounds of a plan -/

section Bounds

variable {caps : List ℚ} {demand floor cap : ℚ} {typical : Option ℚ}

@[simp] theorem length_ordered (caps : List ℚ) : (ordered caps).length = caps.length :=
  List.length_mergeSort caps

end Bounds

/-! ## Settling -/

/-- `released` are holders of the smallest capacity, and `kept` are the others. -/
structure ReleasesSmallest (caps released kept : List ℚ) : Prop where
  perm : caps.Perm (released ++ kept)
  smallest : ∀ r ∈ released, ∀ k ∈ kept, r ≤ k

/-- A fleet at its floor or above whose demand is below the high-water mark. -/
structure Balanced (demand floor : ℚ) (caps : List ℚ) : Prop where
  floor_le : floor ≤ caps.length
  demand_le : demand ≤ HIGH_WATER * caps.sum

section Settling

variable {caps released kept placed fleet : List ℚ} {demand floor cap : ℚ} {typical : Option ℚ}

theorem not_saturated_of_demand_le (h : demand ≤ HIGH_WATER * caps.sum) :
    ¬Saturated caps demand := by
  rintro ⟨hpos, hhigh⟩
  rw [lt_div_iff₀ hpos] at hhigh
  exact absurd h (not_le.mpr hhigh)

theorem demand_le_of_not_saturated (hpos : 0 < caps.sum) (h : ¬Saturated caps demand) :
    demand ≤ HIGH_WATER * caps.sum := by
  have hratio : demand / caps.sum ≤ HIGH_WATER := not_lt.mp fun hhigh => h ⟨hpos, hhigh⟩
  rwa [div_le_iff₀ hpos] at hratio

theorem target_le_of_not_saturated (hs : ¬Saturated caps demand) (hfloor : floor ≤ caps.length) :
    (planBySaturation caps demand floor cap typical).target ≤ caps.length := by
  by_cases hi : Idle caps demand floor
  · rw [target_of_idle hi]
    obtain ⟨gone, -, hsum, -⟩ := @shed_keeps floor (demand / HIGH_WATER)
      (ordered caps) caps.length caps.sum (length_ordered caps).le
    refine max_le hfloor ?_
    exact_mod_cast hsum ▸ Nat.le_add_right _ gone
  · rw [target_of_steady hs hi, max_eq_right hfloor]

theorem Balanced.target_le (h : Balanced demand floor caps) :
    (planBySaturation caps demand floor cap typical).target ≤ caps.length :=
  target_le_of_not_saturated (not_saturated_of_demand_le h.demand_le) h.floor_le

theorem perm_ordered (caps : List ℚ) : (ordered caps).Perm caps := List.mergeSort_perm caps _

theorem pairwise_ordered (caps : List ℚ) : (ordered caps).Pairwise (· ≤ ·) :=
  List.pairwise_mergeSort' (· ≤ ·) caps

theorem ReleasesSmallest.take_ordered (h : ReleasesSmallest caps released kept) :
    (ordered caps).take released.length = ordered released := by
  have hperm : (ordered caps).Perm (ordered released ++ ordered kept) :=
    (perm_ordered caps).trans
      (h.perm.trans ((perm_ordered released).append (perm_ordered kept)).symm)
  have hsorted : (ordered released ++ ordered kept).Pairwise (· ≤ ·) := by
    refine List.pairwise_append.mpr ⟨pairwise_ordered released, pairwise_ordered kept, ?_⟩
    intro r hr k hk
    exact h.smallest r ((perm_ordered released).mem_iff.mp hr) k ((perm_ordered kept).mem_iff.mp hk)
  rw [hperm.eq_of_pairwise' (pairwise_ordered caps) hsorted, ← length_ordered released,
    List.take_left]

theorem ReleasesSmallest.sum_kept (h : ReleasesSmallest caps released kept) :
    kept.sum = caps.sum - ((ordered caps).take released.length).sum := by
  have hsum : caps.sum = released.sum + kept.sum := by
    rw [h.perm.sum_eq, List.sum_append]
  rw [h.take_ordered, (perm_ordered released).sum_eq, hsum]
  ring

theorem idle_of_target_lt (hcap : (caps.length : ℚ) ≤ cap)
    (hlt : (planBySaturation caps demand floor cap typical).target < caps.length) :
    Idle caps demand floor := by
  by_contra hi
  by_cases hs : Saturated caps demand
  · have hextra : 0 ≤ extraHolders caps demand typical := by
      have hwanted : caps.sum ≤ demand / HIGH_WATER := by
        have hhigh := hs.2
        rw [lt_div_iff₀ hs.1] at hhigh
        rw [le_div_iff₀ (by norm_num [HIGH_WATER])]
        linarith
      refine Int.ceil_nonneg (div_nonneg (sub_nonneg.mpr hwanted) ?_)
      exact zero_le_one.trans (le_max_left _ _)
    rw [target_of_saturated hs] at hlt
    have hgrow : (caps.length : ℚ) ≤ caps.length + extraHolders caps demand typical := by
      have : (0 : ℚ) ≤ extraHolders caps demand typical := by exact_mod_cast hextra
      linarith
    exact absurd hlt (not_lt.mpr (le_min hcap (hgrow.trans (le_max_right _ _))))
  · rw [target_of_steady hs hi] at hlt
    exact absurd hlt (not_lt.mpr (le_max_right _ _))

theorem balanced_of_release (hcap : (caps.length : ℚ) ≤ cap)
    (hlt : (planBySaturation caps demand floor cap typical).target < caps.length)
    (hrel : ReleasesSmallest caps released kept)
    (hcount : (planBySaturation caps demand floor cap typical).target ≤ kept.length) :
    Balanced demand floor kept := by
  have hi := idle_of_target_lt hcap hlt
  rw [target_of_idle hi] at hcount
  obtain ⟨gone, -, hsum, hkept⟩ := @shed_keeps floor (demand / HIGH_WATER)
    (ordered caps) caps.length caps.sum (length_ordered caps).le
  have hlen : caps.length = released.length + kept.length := by
    rw [hrel.perm.length_eq, List.length_append]
  have hreleased : released.length ≤ gone := by
    have hle := (le_max_right _ _).trans hcount
    have : shed floor (demand / HIGH_WATER) (ordered caps) caps.length caps.sum ≤ kept.length := by
      exact_mod_cast hle
    omega
  refine ⟨(le_max_left _ _).trans hcount, ?_⟩
  have hhigh : (0 : ℚ) < HIGH_WATER := by norm_num [HIGH_WATER]
  rw [hrel.sum_kept]
  rcases Nat.eq_zero_or_pos released.length with hnone | hsome
  · rw [hnone, List.take_zero, List.sum_nil, sub_zero]
    exact demand_le_of_not_saturated hi.1 (not_saturated_of_idle hi)
  · have hlast := hkept (released.length - 1) (by omega)
    rw [Nat.sub_add_cancel hsome, div_le_iff₀ hhigh] at hlast
    linarith

/-- Placing what a plan asks for, unless the cap cuts it short, balances a fleet. -/
theorem balanced_of_placement (hfloor : floor ≤ caps.length)
    (hgt : (caps.length : ℚ) < (planBySaturation caps demand floor cap typical).target)
    (hcap : caps.length + extraHolders caps demand typical ≤ cap)
    (hplaced : ∀ c ∈ placed, typicalOf caps typical ≤ c)
    (hfleet : fleet.Perm (caps ++ placed))
    (hcount : (fleet.length : ℚ) = (planBySaturation caps demand floor cap typical).target) :
    0 < fleet.sum ∧ Balanced demand floor fleet := by
  have hs : Saturated caps demand := by
    by_contra hs
    exact absurd (target_le_of_not_saturated hs hfloor) (not_le.mpr hgt)
  have htypical : 1 ≤ typicalOf caps typical := le_max_left _ _
  have hlen : fleet.length = caps.length + placed.length := by
    rw [hfleet.length_eq, List.length_append]
  have hsum : placed.length * typicalOf caps typical ≤ placed.sum := by
    have := List.card_nsmul_le_sum placed (typicalOf caps typical) hplaced
    rwa [nsmul_eq_mul] at this
  rw [target_of_saturated hs] at hgt hcount
  have hextra : (placed.length : ℚ) = extraHolders caps demand typical := by
    have hmax : max floor (caps.length + extraHolders caps demand typical : ℚ) =
        caps.length + extraHolders caps demand typical := by
      rcases max_choice floor (caps.length + extraHolders caps demand typical : ℚ) with h | h
      · rw [h] at hgt
        exact absurd (hgt.trans_le (min_le_right _ _)) (not_lt.mpr hfloor)
      · exact h
    rw [hmax, min_eq_right hcap, hlen, Nat.cast_add] at hcount
    linarith
  have hwanted : demand / HIGH_WATER - caps.sum ≤ placed.length * typicalOf caps typical := by
    rw [hextra, ← div_le_iff₀ (zero_lt_one.trans_le htypical)]
    exact Int.le_ceil _
  have hgrown : 0 ≤ placed.sum :=
    le_trans (mul_nonneg (Nat.cast_nonneg _) (zero_le_one.trans htypical)) hsum
  have hhigh : (0 : ℚ) < HIGH_WATER := by norm_num [HIGH_WATER]
  have hfleet_sum : fleet.sum = caps.sum + placed.sum := by
    rw [hfleet.sum_eq, List.sum_append]
  rw [hfleet_sum]
  refine ⟨add_pos_of_pos_of_nonneg hs.1 hgrown, ?_, ?_⟩
  · refine hfloor.trans ?_
    rw [hlen]
    exact_mod_cast Nat.le_add_right _ _
  · rw [hfleet_sum, ← div_le_iff₀' hhigh]
    linarith

/-- A release that a plan asks for is never followed by a placement, and a placement that the
cap does not cut short brings the ratio back to the high-water mark or below. -/
theorem replication_settles (caps : List ℚ) (demand floor cap : ℚ) (typical next : Option ℚ)
    (hfloor : floor ≤ caps.length) (hcap : (caps.length : ℚ) ≤ cap) :
    ((planBySaturation caps demand floor cap typical).target < caps.length →
      ∀ released kept : List ℚ, ReleasesSmallest caps released kept →
        (planBySaturation caps demand floor cap typical).target ≤ kept.length →
        (planBySaturation kept demand floor cap next).target ≤ kept.length) ∧
    ((caps.length : ℚ) < (planBySaturation caps demand floor cap typical).target →
      caps.length + extraHolders caps demand typical ≤ cap →
      ∀ placed fleet : List ℚ, (∀ c ∈ placed, typicalOf caps typical ≤ c) →
        fleet.Perm (caps ++ placed) →
        (fleet.length : ℚ) = (planBySaturation caps demand floor cap typical).target →
        (∃ ratio, (planBySaturation fleet demand floor cap next).ratio = some ratio ∧
          ratio ≤ HIGH_WATER) ∧
        (planBySaturation fleet demand floor cap next).target ≤ fleet.length) := by
  constructor
  · intro hlt released kept hrel hcount
    exact (balanced_of_release hcap hlt hrel hcount).target_le
  · intro hgt hroom placed fleet hplaced hfleet hcount
    obtain ⟨hpos, hbalanced⟩ := balanced_of_placement hfloor hgt hroom hplaced hfleet hcount
    refine ⟨⟨demand / fleet.sum, ratio_of_pos hpos, ?_⟩, hbalanced.target_le⟩
    rw [div_le_iff₀ hpos]
    exact hbalanced.demand_le

/-- A saturated fleet of two that takes three more of its kind. -/
theorem replication_settles_placing :
    (∃ ratio, (planBySaturation [8, 8, 8, 8, 8] 30 1 10 none).ratio = some ratio ∧
      ratio ≤ HIGH_WATER) ∧
    (planBySaturation [8, 8, 8, 8, 8] 30 1 10 none).target ≤ ([8, 8, 8, 8, 8] : List ℚ).length := by
  have htarget : (planBySaturation [8, 8] 30 1 10 none).target = 5 := by decide +kernel
  have hextra : extraHolders [8, 8] 30 none = 3 := by decide +kernel
  refine (replication_settles [8, 8] 30 1 10 none none (by norm_num) (by norm_num)).2 ?_ ?_
    [8, 8, 8] [8, 8, 8, 8, 8] ?_ (List.Perm.refl _) ?_
  · rw [htarget]
    norm_num
  · rw [hextra]
    norm_num
  · have htypical : typicalOf [8, 8] none = 8 := by decide +kernel
    intro c hc
    rw [htypical]
    simp only [List.mem_cons, List.not_mem_nil, or_false, or_self] at hc
    exact hc.ge
  · rw [htarget]
    norm_num

/-- Holders that are taken to be of capacity `1/2` are counted as `1` each, so that placing
them leaves the fleet saturated. -/
theorem placement_of_half_holders :
    (planBySaturation [1] 3 1 10 (some (1 / 2))).target = 4 ∧
      extraHolders [1] 3 (some (1 / 2)) = 3 ∧
      (planBySaturation [1, 1 / 2, 1 / 2, 1 / 2] 3 1 10 (some (1 / 2))).ratio = some (6 / 5) ∧
      HIGH_WATER < 6 / 5 ∧
      4 < (planBySaturation [1, 1 / 2, 1 / 2, 1 / 2] 3 1 10 (some (1 / 2))).target := by
  decide +kernel

end Settling

end NeuronWeb
