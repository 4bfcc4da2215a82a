/-
  Economy/Rewards: the capped emission of an epoch, and how it is split
  (`engine/economy/rewards.ts`).

  Supply and rewards are bigints, contribution weights are `number`s.  A weight is scaled to a
  bigint of at least one, so that the shares of one epoch are floors of fractions whose sum is
  the emission: what is minted stays below it, and the dust is not minted at all.
-/
import NeuronWeb.Core.Hash
import NeuronWeb.Foundation.MapSum
import NeuronWeb.Foundation.Run

set_option autoImplicit false

namespace NeuronWeb

variable {F : Type} [JsNumber F]

structure RewardConfig where
  /-- Max emission per epoch as parts-per-million of current supply. -/
  inflationPpm : Int
  /-- Absolute minimum emission per epoch. -/
  baseEmission : Int

structure Distribution where
  minted : Int
  perRecipient : JsMap Hex Int

structure RewardLedger where
  supply : Int
  earned : JsMap Hex Int
  cfg : RewardConfig

/-! ## The ledger -/

/-- `BigInt(Math.max(1, Math.floor(w * 1_000_000)))`; `none` when `BigInt` throws. -/
def scaledWeight (w : F) : Option Int :=
  JsNumber.toBigInt (JsNumber.max (JsNumber.ofInt 1)
    (JsNumber.floor (JsNumber.mul w (JsNumber.ofInt 1000000))))

/-- The first loop of `distribute`: the scaled weights and their total. -/
def scaleWeights : List (Hex × F) → JsMap Hex Int → Int → Option (JsMap Hex Int × Int)
  | [], scaled, totalScaled => some (scaled, totalScaled)
  | (id, w) :: rest, scaled, totalScaled =>
    if JsNumber.le w (JsNumber.ofInt 0) then scaleWeights rest scaled totalScaled
    else
      (scaledWeight w).bind fun s => scaleWeights rest (scaled.set id s) (totalScaled + s)

/-- What the second loop of `distribute` keeps. -/
structure Split where
  perRecipient : JsMap Hex Int
  earned : JsMap Hex Int
  minted : Int

/-- `(emission * s) / totalScaled`. -/
def shareOf (emission totalScaled s : Int) : Int := (emission * s).tdiv totalScaled

/-- The second loop of `distribute`. -/
def payShares (emission totalScaled : Int) : List (Hex × Int) → Split → Split
  | [], acc => acc
  | (id, s) :: rest, acc =>
    let share := shareOf emission totalScaled s
    if 0 < share then
      payShares emission totalScaled rest
        { perRecipient := acc.perRecipient.set id share
          earned := acc.earned.set id ((acc.earned.get? id).getD 0 + share)
          minted := acc.minted + share }
    else payShares emission totalScaled rest acc

namespace RewardLedger

def new (initialSupply : Int) (cfg : RewardConfig) : RewardLedger := ⟨initialSupply, .empty, cfg⟩

def totalSupply (l : RewardLedger) : Int := l.supply

def earnedBy (l : RewardLedger) (id : Hex) : Int := (l.earned.get? id).getD 0

/-- The capped emission this epoch given current supply. -/
def epochEmission (l : RewardLedger) : Int :=
  let byRate := (l.supply * l.cfg.inflationPpm).tdiv 1000000
  if byRate > l.cfg.baseEmission then byRate else l.cfg.baseEmission

/-- Mint the epoch's emission and split it across contributors by weight; the answer is `none`
when a weight cannot be scaled, and then nothing has been written yet. -/
def distribute (l : RewardLedger) (contributions : JsMap Hex F) :
    RewardLedger × Option Distribution :=
  let emission := l.epochEmission
  if emission ≤ 0 ∨ contributions.entries.isEmpty = true then (l, some ⟨0, .empty⟩)
  else
    match scaleWeights contributions.entries .empty 0 with
    | none => (l, none)
    | some (scaled, totalScaled) =>
      if totalScaled = 0 then (l, some ⟨0, .empty⟩)
      else
        let split := payShares emission totalScaled scaled.entries ⟨.empty, l.earned, 0⟩
        ({ l with supply := l.supply + split.minted, earned := split.earned },
          some ⟨split.minted, split.perRecipient⟩)

end RewardLedger

/-! ## The scaled weights -/

section Scale

variable {id : Hex} {w : F} {l : List (Hex × F)} {scaled scaled' : JsMap Hex Int}
  {totalScaled totalScaled' : Int}

/-- What a contributor takes part with. -/
def scaledPart (w : F) : Option Int :=
  if JsNumber.le w (JsNumber.ofInt 0) then none else scaledWeight w

theorem one_le_scaledWeight [LawfulJsNumber F] [MaxJsNumber F] [WholeJsNumber F] {s : Int}
    (h : scaledWeight w = some s) : 1 ≤ s := by
  unfold scaledWeight at h
  generalize JsNumber.floor (JsNumber.mul w (JsNumber.ofInt 1000000)) = y at h
  have hsame := WholeJsNumber.same_of_toBigInt _ _ h
  rw [MaxJsNumber.same_max, Bool.and_eq_true] at hsame
  have hpos : JsNumber.lt (JsNumber.ofInt 0) (JsNumber.max (JsNumber.ofInt 1) y) = true := by
    rw [MaxJsNumber.lt_max _ _ _ hsame.1 hsame.2, LawfulJsNumber.zero_lt_ofInt 1 Int.one_pos,
      Bool.true_or]
  exact (WholeJsNumber.pos_of_toBigInt _ _ h).mp hpos

theorem scaleWeights_eq_none_iff : scaleWeights l scaled totalScaled = none ↔
    ∃ e ∈ l, JsNumber.le e.2 (JsNumber.ofInt 0) = false ∧ scaledWeight e.2 = none := by
  induction l generalizing scaled totalScaled with
  | nil => simp [scaleWeights]
  | cons e rest ih =>
    obtain ⟨id, w⟩ := e
    rw [scaleWeights]
    split
    case isTrue hle => simp [ih, hle]
    case isFalse hle =>
      cases hs : scaledWeight w with
      | none => simp [hs, hle]
      | some s => simp [hs, ih]

theorem get?_scaleWeights (h : scaleWeights l scaled totalScaled = some (scaled', totalScaled'))
    (hnodup : (l.map Prod.fst).Nodup) (hfresh : ∀ id ∈ l.map Prod.fst, scaled.get? id = none)
    (id : Hex) :
    scaled'.get? id = (scaled.get? id).or ((JsMap.find id l).bind scaledPart) := by
  induction l generalizing scaled totalScaled with
  | nil =>
    rw [scaleWeights, Option.some_inj, Prod.mk.injEq] at h
    rw [JsMap.find_nil, Option.bind_none, Option.or_none, h.1]
  | cons e rest ih =>
    obtain ⟨k, w⟩ := e
    rw [List.map_cons, List.nodup_cons] at hnodup
    have hrest : ∀ id ∈ rest.map Prod.fst, scaled.get? id = none := fun id hid =>
      hfresh id (List.mem_cons_of_mem _ hid)
    have hk : scaled.get? k = none := hfresh k List.mem_cons_self
    have hnone : JsMap.find k rest = none := by
      cases hfind : JsMap.find k rest with
      | none => rfl
      | some v => exact absurd (List.mem_map_of_mem (JsMap.mem_of_find hfind)) hnodup.1
    rw [scaleWeights] at h
    rw [JsMap.find_cons]
    split at h
    case isTrue hle =>
      rw [ih h hnodup.2 hrest]
      split
      case isTrue heq =>
        subst heq
        rw [hk, hnone, Option.bind_some, scaledPart, if_pos hle, Option.bind_none]
      case isFalse => rfl
    case isFalse hle =>
      obtain ⟨s, hs, h⟩ := Option.bind_eq_some_iff.mp h
      have hset : ∀ id ∈ rest.map Prod.fst, (scaled.set k s).get? id = none := by
        intro id hid
        have hne : k ≠ id := by
          rintro rfl
          exact hnodup.1 hid
        rw [JsMap.get?_set_ne _ _ hne]
        exact hrest id hid
      rw [ih h hnodup.2 hset, JsMap.get?_set]
      split
      case isTrue heq =>
        subst heq
        rw [hk, Option.some_or, Option.none_or, Option.bind_some, scaledPart, if_neg hle, hs]
      case isFalse => rfl

theorem total_scaleWeights (h : scaleWeights l scaled totalScaled = some (scaled', totalScaled'))
    (hnodup : (l.map Prod.fst).Nodup) (hfresh : ∀ id ∈ l.map Prod.fst, scaled.get? id = none)
    (htotal : totalScaled = scaled.total fun s => s) :
    totalScaled' = scaled'.total fun s => s := by
  induction l generalizing scaled totalScaled with
  | nil =>
    rw [scaleWeights, Option.some_inj, Prod.mk.injEq] at h
    rw [← h.1, ← h.2, htotal]
  | cons e rest ih =>
    obtain ⟨k, w⟩ := e
    rw [List.map_cons, List.nodup_cons] at hnodup
    rw [scaleWeights] at h
    split at h
    case isTrue hle =>
      exact ih h hnodup.2 (fun id hid => hfresh id (List.mem_cons_of_mem _ hid)) htotal
    case isFalse hle =>
      obtain ⟨s, hs, h⟩ := Option.bind_eq_some_iff.mp h
      refine ih h hnodup.2 (fun id hid => ?_) ?_
      · have hne : k ≠ id := by
          rintro rfl
          exact hnodup.1 hid
        rw [JsMap.get?_set_ne _ _ hne]
        exact hfresh id (List.mem_cons_of_mem _ hid)
      · rw [JsMap.total_set_of_fresh _ (hfresh k List.mem_cons_self), htotal]

end Scale

/-! ## The shares -/

section Shares

variable {emission totalScaled : Int} {l : List (Hex × Int)}

/-- What is paid for a scaled weight. -/
def paidShare (emission totalScaled s : Int) : Int :=
  if 0 < shareOf emission totalScaled s then shareOf emission totalScaled s else 0

theorem payShares_cons (id : Hex) (s : Int) (rest : List (Hex × Int)) (acc : Split) :
    payShares emission totalScaled ((id, s) :: rest) acc =
      payShares emission totalScaled rest
        (if 0 < shareOf emission totalScaled s then
          { perRecipient := acc.perRecipient.set id (shareOf emission totalScaled s)
            earned := acc.earned.set id
              ((acc.earned.get? id).getD 0 + shareOf emission totalScaled s)
            minted := acc.minted + shareOf emission totalScaled s }
        else acc) := by
  rw [payShares]
  split
  case isTrue => rfl
  case isFalse => rfl

theorem minted_payShares (acc : Split) : (payShares emission totalScaled l acc).minted =
    acc.minted + (l.map fun e => paidShare emission totalScaled e.2).sum := by
  induction l generalizing acc with
  | nil => simp [payShares]
  | cons e rest ih =>
    obtain ⟨id, s⟩ := e
    rw [payShares_cons, ih, List.map_cons, List.sum_cons, ← add_assoc, paidShare]
    split
    case isTrue => rfl
    case isFalse => rw [add_zero]

theorem earned_payShares (acc : Split) :
    ((payShares emission totalScaled l acc).earned.total fun s => s) =
      (acc.earned.total fun s => s) + ((payShares emission totalScaled l acc).minted -
        acc.minted) := by
  induction l generalizing acc with
  | nil => simp [payShares]
  | cons e rest ih =>
    obtain ⟨id, s⟩ := e
    rw [payShares_cons, ih]
    split
    case isTrue =>
      have hset := JsMap.total_set (fun s : Int => s) acc.earned id
        ((acc.earned.get? id).getD 0 + shareOf emission totalScaled s)
      have hold : (acc.earned.get? id).elim 0 (fun s : Int => s) =
          (acc.earned.get? id).getD 0 := by
        cases acc.earned.get? id <;> rfl
      rw [hold] at hset
      dsimp only
      omega
    case isFalse => rfl

section

variable (hnodup : (l.map Prod.fst).Nodup)
include hnodup

/-- A new recipient is told its share, if that is not zero. -/
theorem get?_perRecipient (acc : Split)
    (hfresh : ∀ id ∈ l.map Prod.fst, acc.perRecipient.get? id = none) (id : Hex) :
    (payShares emission totalScaled l acc).perRecipient.get? id =
      (acc.perRecipient.get? id).or (((JsMap.find id l).map (shareOf emission totalScaled)).filter
        fun share => 0 < share) := by
  induction l generalizing acc with
  | nil => simp [payShares, JsMap.find_nil]
  | cons e rest ih =>
    obtain ⟨k, s⟩ := e
    rw [List.map_cons, List.nodup_cons] at hnodup
    have hk : acc.perRecipient.get? k = none := hfresh k List.mem_cons_self
    have hnone : JsMap.find k rest = none := by
      cases hfind : JsMap.find k rest with
      | none => rfl
      | some v => exact absurd (List.mem_map_of_mem (JsMap.mem_of_find hfind)) hnodup.1
    have hrest : ∀ id ∈ rest.map Prod.fst, k ≠ id ∧ acc.perRecipient.get? id = none := by
      intro id hid
      refine ⟨?_, hfresh id (List.mem_cons_of_mem _ hid)⟩
      rintro rfl
      exact hnodup.1 hid
    rw [payShares_cons, JsMap.find_cons, ih hnodup.2]
    · by_cases hpos : 0 < shareOf emission totalScaled s
      · rw [if_pos hpos, JsMap.get?_set]
        split
        case isTrue heq =>
          subst heq
          rw [hk, Option.some_or, Option.none_or, Option.map_some, Option.filter_some,
            if_pos (decide_eq_true hpos)]
        case isFalse => rfl
      · rw [if_neg hpos]
        split
        case isTrue heq =>
          subst heq
          rw [hk, hnone, Option.map_none, Option.map_some, Option.filter_some,
            if_neg (by simpa using hpos)]
          rfl
        case isFalse => rfl
    · intro id hid
      split
      case isTrue => rw [JsMap.get?_set_ne _ _ (hrest id hid).1, (hrest id hid).2]
      case isFalse => exact (hrest id hid).2

theorem total_perRecipient (acc : Split)
    (hfresh : ∀ id ∈ l.map Prod.fst, acc.perRecipient.get? id = none) :
    ((payShares emission totalScaled l acc).perRecipient.total fun s => s) =
      (acc.perRecipient.total fun s => s) + ((payShares emission totalScaled l acc).minted -
        acc.minted) := by
  induction l generalizing acc with
  | nil => simp [payShares]
  | cons e rest ih =>
    obtain ⟨k, s⟩ := e
    rw [List.map_cons, List.nodup_cons] at hnodup
    rw [payShares_cons, ih hnodup.2]
    · split
      case isTrue =>
        rw [JsMap.total_set_of_fresh _ (hfresh k List.mem_cons_self)]
        dsimp only
        omega
      case isFalse => rfl
    · intro id hid
      have hne : k ≠ id := by
        rintro rfl
        exact hnodup.1 hid
      have hid' := hfresh id (List.mem_cons_of_mem _ hid)
      split
      case isTrue => rw [JsMap.get?_set_ne _ _ hne, hid']
      case isFalse => exact hid'

theorem getD_earned (acc : Split) (id : Hex) :
    ((payShares emission totalScaled l acc).earned.get? id).getD 0 =
      (acc.earned.get? id).getD 0 +
        ((JsMap.find id l).elim 0 (paidShare emission totalScaled)) := by
  induction l generalizing acc with
  | nil => rw [payShares, JsMap.find_nil, Option.elim_none, add_zero]
  | cons e rest ih =>
    obtain ⟨k, s⟩ := e
    rw [List.map_cons, List.nodup_cons] at hnodup
    have hnone : JsMap.find k rest = none := by
      cases hfind : JsMap.find k rest with
      | none => rfl
      | some v => exact absurd (List.mem_map_of_mem (JsMap.mem_of_find hfind)) hnodup.1
    rw [payShares_cons, JsMap.find_cons, ih hnodup.2]
    by_cases hpos : 0 < shareOf emission totalScaled s
    · rw [if_pos hpos, JsMap.get?_set]
      split
      case isTrue heq =>
        subst heq
        rw [hnone, Option.elim_none, add_zero, Option.elim_some, paidShare, if_pos hpos]
        rfl
      case isFalse => rfl
    · rw [if_neg hpos]
      split
      case isTrue heq =>
        subst heq
        rw [hnone, Option.elim_none, Option.elim_some, paidShare, if_neg hpos]
      case isFalse => rfl

theorem getD_perRecipient (earned : JsMap Hex Int) (id : Hex) :
    ((payShares emission totalScaled l ⟨.empty, earned, 0⟩).perRecipient.get? id).getD 0 =
      (JsMap.find id l).elim 0 (paidShare emission totalScaled) := by
  rw [get?_perRecipient hnodup _ (fun _ _ => rfl), JsMap.get?_empty, Option.none_or]
  cases hfind : JsMap.find id l with
  | none => rfl
  | some s =>
    rw [Option.map_some, Option.filter_some, Option.elim_some, paidShare]
    by_cases hpos : 0 < shareOf emission totalScaled s
    · rw [if_pos (decide_eq_true hpos), if_pos hpos, Option.getD_some]
    · rw [if_neg (by simpa using hpos), if_neg hpos, Option.getD_none]

end

theorem paidShare_nonneg (s : Int) : 0 ≤ paidShare emission totalScaled s := by
  unfold paidShare
  split <;> omega

theorem minted_nonneg (earned : JsMap Hex Int) :
    0 ≤ (payShares emission totalScaled l ⟨.empty, earned, 0⟩).minted := by
  rw [minted_payShares]
  dsimp only
  rw [Int.zero_add]
  refine List.sum_nonneg fun share hshare => ?_
  obtain ⟨e, -, rfl⟩ := List.mem_map.mp hshare
  exact paidShare_nonneg e.2

theorem payShares_congr {scaled scaled' : JsMap Hex Int}
    (h : ∀ id, scaled.get? id = scaled'.get? id) (earned : JsMap Hex Int) :
    let split := payShares emission totalScaled scaled.entries ⟨.empty, earned, 0⟩
    let split' := payShares emission totalScaled scaled'.entries ⟨.empty, earned, 0⟩
    split.minted = split'.minted ∧
      (∀ id, split.perRecipient.get? id = split'.perRecipient.get? id) ∧
      ∀ id, (split.earned.get? id).getD 0 = (split'.earned.get? id).getD 0 := by
  refine ⟨?_, fun id => ?_, fun id => ?_⟩
  · rw [minted_payShares, minted_payShares]
    exact congrArg _ (((JsMap.entries_perm h).map _).sum_eq)
  · rw [get?_perRecipient scaled.nodup _ (fun _ _ => rfl),
      get?_perRecipient scaled'.nodup _ (fun _ _ => rfl)]
    exact congrArg (fun s : Option Int => Option.or _ (Option.filter _ (s.map _))) (h id)
  · rw [getD_earned scaled.nodup, getD_earned scaled'.nodup]
    exact congrArg (fun s : Option Int => _ + s.elim 0 _) (h id)

theorem paidShare_mul_le (hemission : 0 ≤ emission) (htotal : 0 < totalScaled) {s : Int}
    (hs : 0 ≤ s) : paidShare emission totalScaled s * totalScaled ≤ emission * s := by
  have hprod : 0 ≤ emission * s := Int.mul_nonneg hemission hs
  unfold paidShare
  split
  case isTrue =>
    rw [shareOf, Int.tdiv_eq_ediv_of_nonneg hprod]
    exact Int.ediv_mul_le _ htotal.ne'
  case isFalse => rwa [Int.zero_mul]

theorem sum_paidShare_mul_le (hemission : 0 ≤ emission) (htotal : 0 < totalScaled)
    (hl : ∀ e ∈ l, 0 ≤ e.2) :
    (l.map fun e => paidShare emission totalScaled e.2).sum * totalScaled ≤
      emission * (l.map Prod.snd).sum := by
  induction l with
  | nil => simp
  | cons e rest ih =>
    have hfirst := paidShare_mul_le hemission htotal (hl e List.mem_cons_self)
    have hrest := ih fun e he => hl e (List.mem_cons_of_mem _ he)
    rw [List.map_cons, List.sum_cons, List.map_cons, List.sum_cons, Int.add_mul, Int.mul_add]
    exact Int.add_le_add hfirst hrest

end Shares

/-! ## One epoch -/

section Epoch

variable [LawfulJsNumber F] [MaxJsNumber F] [WholeJsNumber F] {l : RewardLedger}
  {contributions contributions' : JsMap Hex F} {scaled scaled' : JsMap Hex Int}
  {totalScaled totalScaled' : Int}

/-- The scaled weights of an epoch, and their total. -/
structure Scaled (contributions : JsMap Hex F) (scaled : JsMap Hex Int) (totalScaled : Int) :
    Prop where
  parts : ∀ id, scaled.get? id = (contributions.get? id).bind scaledPart
  total : totalScaled = scaled.total fun s => s

omit [LawfulJsNumber F] [MaxJsNumber F] [WholeJsNumber F] in
theorem scaled_of_scaleWeights
    (h : scaleWeights contributions.entries .empty 0 = some (scaled, totalScaled)) :
    Scaled contributions scaled totalScaled where
  parts id := by
    have hparts := get?_scaleWeights h contributions.nodup (fun _ _ => rfl) id
    rwa [JsMap.get?_empty, Option.none_or] at hparts
  total := total_scaleWeights h contributions.nodup (fun _ _ => rfl) rfl

namespace Scaled

section

variable (h : Scaled contributions scaled totalScaled)
include h

theorem one_le {e : Hex × Int} (he : e ∈ scaled.entries) : 1 ≤ e.2 := by
  have hget : scaled.get? e.1 = some e.2 := (scaled.get?_eq_some_iff e.1 e.2).mpr he
  rw [h.parts] at hget
  obtain ⟨w, -, hpart⟩ := Option.bind_eq_some_iff.mp hget
  unfold scaledPart at hpart
  split at hpart
  case isTrue => cases hpart
  case isFalse => exact one_le_scaledWeight hpart

omit [LawfulJsNumber F] [MaxJsNumber F] [WholeJsNumber F] in
theorem total_eq_sum : totalScaled = (scaled.entries.map Prod.snd).sum := by
  rw [h.total, JsMap.total, List.map_id']
  rfl

omit [LawfulJsNumber F] [MaxJsNumber F] [WholeJsNumber F] in
theorem congr (h' : Scaled contributions' scaled' totalScaled')
    (hget : ∀ id, contributions.get? id = contributions'.get? id) :
    (∀ id, scaled.get? id = scaled'.get? id) ∧ totalScaled = totalScaled' := by
  have hparts : ∀ id, scaled.get? id = scaled'.get? id := by
    intro id
    rw [h.parts, h'.parts, hget]
  refine ⟨hparts, ?_⟩
  rw [h.total, h'.total, JsMap.total_congr _ hparts]

theorem total_nonneg : 0 ≤ totalScaled := by
  rw [h.total_eq_sum]
  refine List.sum_nonneg fun s hs => ?_
  obtain ⟨e, he, rfl⟩ := List.mem_map.mp hs
  have hone := h.one_le he
  omega

end

end Scaled

theorem minted_le (h : Scaled contributions scaled totalScaled) (hemission : 0 < l.epochEmission)
    (htotal : totalScaled ≠ 0) (earned : JsMap Hex Int) :
    (payShares l.epochEmission totalScaled scaled.entries ⟨.empty, earned, 0⟩).minted ≤
      l.epochEmission := by
  have hpos : 0 < totalScaled := lt_of_le_of_ne h.total_nonneg (Ne.symm htotal)
  have hsum := sum_paidShare_mul_le hemission.le hpos fun e he =>
    (show (0 : Int) ≤ 1 by omega).trans (h.one_le he)
  rw [← h.total_eq_sum] at hsum
  rw [minted_payShares]
  dsimp only
  rw [Int.zero_add]
  exact le_of_mul_le_mul_right hsum hpos

omit [LawfulJsNumber F] [MaxJsNumber F] [WholeJsNumber F] in
theorem epochEmission_eq (hsupply : 0 ≤ l.supply) (hppm : 0 ≤ l.cfg.inflationPpm) :
    l.epochEmission = max (l.supply * l.cfg.inflationPpm / 1000000) l.cfg.baseEmission := by
  unfold RewardLedger.epochEmission
  rw [Int.tdiv_eq_ediv_of_nonneg (Int.mul_nonneg hsupply hppm)]
  dsimp only
  split <;> omega

omit [LawfulJsNumber F] [MaxJsNumber F] [WholeJsNumber F] in
theorem distribute_cases (l : RewardLedger) (contributions : JsMap Hex F) :
    ((l.distribute contributions).1 = l ∧ ((l.distribute contributions).2 = none ∨
      (l.distribute contributions).2 = some ⟨0, .empty⟩)) ∨
    ∃ scaled totalScaled, 0 < l.epochEmission ∧
      scaleWeights contributions.entries .empty 0 = some (scaled, totalScaled) ∧
      totalScaled ≠ 0 ∧
      l.distribute contributions =
        let split := payShares l.epochEmission totalScaled scaled.entries ⟨.empty, l.earned, 0⟩
        ({ l with supply := l.supply + split.minted, earned := split.earned },
          some ⟨split.minted, split.perRecipient⟩) := by
  rw [RewardLedger.distribute]
  dsimp only
  split
  case isTrue => exact .inl ⟨rfl, .inr rfl⟩
  case isFalse hgo =>
    cases hscale : scaleWeights contributions.entries .empty 0 with
    | none => exact .inl ⟨rfl, .inl rfl⟩
    | some scaled =>
      dsimp only
      split
      case isTrue => exact .inl ⟨rfl, .inr rfl⟩
      case isFalse htotal =>
        exact .inr ⟨scaled.1, scaled.2, by omega, rfl, htotal, rfl⟩

end Epoch

/-! ## Every run of epochs -/

/-- What one call of `distribute` does to the supply and to the recipients.  A call that throws
does nothing. -/
structure CappedEmission (l : RewardLedger) (contributions : JsMap Hex F) (l' : RewardLedger) :
    Prop where
  unchanged : (l.distribute contributions).2 = none → l' = l
  capped : ∀ d, (l.distribute contributions).2 = some d → d.minted ≤
    max (l.totalSupply * l.cfg.inflationPpm / 1000000) l.cfg.baseEmission
  split : ∀ d, (l.distribute contributions).2 = some d →
    d.minted = d.perRecipient.total fun share => share
  minted : ∀ d, (l.distribute contributions).2 = some d →
    l'.totalSupply = l.totalSupply + d.minted
  credited : ∀ d, (l.distribute contributions).2 = some d → ∀ id,
    l'.earnedBy id = l.earnedBy id + (d.perRecipient.get? id).getD 0
  positive : ∀ d, (l.distribute contributions).2 = some d → ∀ id share,
    d.perRecipient.get? id = some share → 0 < share ∧
      ∃ w, contributions.get? id = some w ∧ JsNumber.le w (JsNumber.ofInt 0) = false

/-- Two calls that differ in nothing that can be asked for. -/
structure SameEpoch (r r' : RewardLedger × Option Distribution) : Prop where
  same_supply : r.1.totalSupply = r'.1.totalSupply
  same_earned : ∀ id, r.1.earnedBy id = r'.1.earnedBy id
  same_throw : r.2 = none ↔ r'.2 = none
  same_split : ∀ d d', r.2 = some d → r'.2 = some d' →
    d.minted = d'.minted ∧ ∀ id, d.perRecipient.get? id = d'.perRecipient.get? id

theorem SameEpoch.refl (r : RewardLedger × Option Distribution) : SameEpoch r r := by
  refine ⟨rfl, fun _ => rfl, Iff.rfl, fun d d' hd hd' => ?_⟩
  have hsame : d = d' := Option.some_inj.mp (hd.symm.trans hd')
  exact ⟨congrArg _ hsame, fun id => congrArg (fun x => x.perRecipient.get? id) hsame⟩

namespace RewardLedger

/-- A `distribute` call, as a step. -/
def epoch (l : RewardLedger) (contributions : JsMap Hex F) : RewardLedger :=
  (l.distribute contributions).1

/-- The supply is what there was at first and what has been earned since. -/
structure Accounted (initialSupply : Int) (l : RewardLedger) : Prop where
  initial_nonneg : 0 ≤ initialSupply
  inflation_nonneg : 0 ≤ l.cfg.inflationPpm
  base_nonneg : 0 ≤ l.cfg.baseEmission
  supply_nonneg : 0 ≤ l.supply
  supply_eq : l.supply = initialSupply + l.earned.total fun share => share

end RewardLedger

section Runs

variable [LawfulJsNumber F] [MaxJsNumber F] [WholeJsNumber F] {initialSupply : Int}
  {l : RewardLedger}

omit [LawfulJsNumber F] [MaxJsNumber F] [WholeJsNumber F] in
theorem accounted_epoch (h : l.Accounted initialSupply) (contributions : JsMap Hex F) :
    (l.epoch contributions).Accounted initialSupply := by
  unfold RewardLedger.epoch
  obtain ⟨hsame, -⟩ | ⟨scaled, totalScaled, -, -, -, heq⟩ := distribute_cases l contributions
  · rwa [hsame]
  · rw [heq]
    have hearned := @earned_payShares l.epochEmission totalScaled scaled.entries
      ⟨.empty, l.earned, 0⟩
    have hminted := @minted_nonneg l.epochEmission totalScaled scaled.entries l.earned
    have hsupply := h.supply_eq
    have hnonneg := h.supply_nonneg
    exact
      { initial_nonneg := h.initial_nonneg
        inflation_nonneg := h.inflation_nonneg
        base_nonneg := h.base_nonneg
        supply_nonneg := by dsimp only; omega
        supply_eq := by dsimp only at hearned ⊢; omega }

omit [LawfulJsNumber F] [MaxJsNumber F] [WholeJsNumber F] in
theorem cappedEmission_of_unchanged {contributions : JsMap Hex F} (hbase : 0 ≤ l.cfg.baseEmission)
    (hnone : (l.distribute contributions).2 = none ∨
      (l.distribute contributions).2 = some ⟨0, .empty⟩) :
    CappedEmission l contributions l := by
  have hzero : ∀ d, (l.distribute contributions).2 = some d → d = ⟨0, .empty⟩ := by
    intro d hd
    rcases hnone with hnone | hnone
    · rw [hnone] at hd
      cases hd
    · rw [hnone] at hd
      exact (Option.some_inj.mp hd).symm
  refine ⟨fun _ => rfl, ?_, ?_, ?_, ?_, ?_⟩
  · intro d hd
    rw [hzero d hd]
    exact hbase.trans (le_max_right _ _)
  · intro d hd
    rw [hzero d hd]
    rfl
  · intro d hd
    rw [hzero d hd]
    exact (Int.add_zero _).symm
  · intro d hd id
    rw [hzero d hd]
    exact (Int.add_zero _).symm
  · intro d hd id share hshare
    rw [hzero d hd] at hshare
    cases hshare

theorem cappedEmission_epoch (h : l.Accounted initialSupply) (contributions : JsMap Hex F) :
    CappedEmission l contributions (l.epoch contributions) := by
  have hcap := epochEmission_eq h.supply_nonneg h.inflation_nonneg
  unfold RewardLedger.epoch
  obtain ⟨hsame, hnone⟩ | ⟨scaled, totalScaled, hemission, hscale, htotal, heq⟩ :=
    distribute_cases l contributions
  · rw [hsame]
    exact cappedEmission_of_unchanged h.base_nonneg hnone
  · have hscaled := scaled_of_scaleWeights hscale
    have hdist : ∀ d, (l.distribute contributions).2 = some d →
        d = ⟨(payShares l.epochEmission totalScaled scaled.entries ⟨.empty, l.earned, 0⟩).minted,
          (payShares l.epochEmission totalScaled scaled.entries
            ⟨.empty, l.earned, 0⟩).perRecipient⟩ := by
      intro d hd
      rw [heq] at hd
      exact (Option.some_inj.mp hd).symm
    refine ⟨?_, ?_, ?_, ?_, ?_, ?_⟩
    · intro hthrow
      rw [heq] at hthrow
      cases hthrow
    · intro d hd
      rw [hdist d hd]
      exact (minted_le hscaled hemission htotal l.earned).trans hcap.le
    · intro d hd
      rw [hdist d hd]
      have hsplit := @total_perRecipient l.epochEmission totalScaled _ scaled.nodup
        ⟨.empty, l.earned, 0⟩ (fun _ _ => rfl)
      dsimp only at hsplit ⊢
      rw [hsplit, JsMap.total_empty]
      omega
    · intro d hd
      rw [hdist d hd, heq]
      rfl
    · intro d hd id
      rw [hdist d hd, heq]
      exact (getD_earned scaled.nodup _ id).trans
        (congrArg (l.earnedBy id + ·) (getD_perRecipient scaled.nodup l.earned id).symm)
    · intro d hd id share hshare
      rw [hdist d hd] at hshare
      dsimp only at hshare
      rw [get?_perRecipient scaled.nodup _ (fun _ _ => rfl), JsMap.get?_empty, Option.none_or,
        Option.filter_eq_some_iff] at hshare
      obtain ⟨hpaid, hpos⟩ := hshare
      refine ⟨of_decide_eq_true hpos, ?_⟩
      obtain ⟨s, hs, -⟩ := Option.map_eq_some_iff.mp hpaid
      have hpart := hscaled.parts id
      rw [JsMap.get?, hs] at hpart
      obtain ⟨w, hw, hweight⟩ := Option.bind_eq_some_iff.mp hpart.symm
      refine ⟨w, hw, ?_⟩
      unfold scaledPart at hweight
      split at hweight
      case isTrue => cases hweight
      case isFalse hle => exact Bool.not_eq_true _ ▸ hle

omit [LawfulJsNumber F] [MaxJsNumber F] [WholeJsNumber F] in
/-- The order of the contributions makes no difference. -/
theorem sameEpoch_of_perm (l : RewardLedger) {contributions contributions' : JsMap Hex F}
    (h : contributions.entries.Perm contributions'.entries) :
    SameEpoch (l.distribute contributions) (l.distribute contributions') := by
  have hempty : contributions'.entries.isEmpty = contributions.entries.isEmpty :=
    h.symm.isEmpty_eq
  have hnone : scaleWeights contributions.entries .empty 0 = none ↔
      scaleWeights contributions'.entries .empty 0 = none := by
    rw [scaleWeights_eq_none_iff, scaleWeights_eq_none_iff]
    exact exists_congr fun e => and_congr h.mem_iff Iff.rfl
  rw [RewardLedger.distribute, RewardLedger.distribute, hempty]
  dsimp only
  split
  case isTrue => exact SameEpoch.refl _
  case isFalse =>
    cases hscale : scaleWeights contributions.entries .empty 0 with
    | none =>
      rw [hnone.mp hscale]
      exact SameEpoch.refl _
    | some e =>
      cases hscale' : scaleWeights contributions'.entries .empty 0 with
      | none =>
        rw [hnone.mpr hscale'] at hscale
        cases hscale
      | some e' =>
        have hscaled := scaled_of_scaleWeights hscale
        obtain ⟨hparts, htotal⟩ := hscaled.congr (scaled_of_scaleWeights hscale')
          (JsMap.get?_of_perm h)
        dsimp only
        rw [← htotal]
        split
        case isTrue => exact SameEpoch.refl _
        case isFalse =>
          obtain ⟨hminted, hper, hearned⟩ :=
            @payShares_congr l.epochEmission e.2 _ _ hparts l.earned
          refine ⟨?_, hearned, ?_, ?_⟩
          · exact congrArg (l.supply + ·) hminted
          · exact iff_of_false (Option.some_ne_none _) (Option.some_ne_none _)
          · intro d d' hd hd'
            rw [← Option.some_inj.mp hd, ← Option.some_inj.mp hd']
            exact ⟨hminted, hper⟩

/-- Over any sequence of epochs each call mints no more than its cap, out of the shares it
reports, and the supply is what there was at first and what has been earned since; the order of
the contributions of a call makes no difference to it. -/
theorem emission_capped_and_accounted (cfg : RewardConfig) (hsupply : 0 ≤ initialSupply)
    (hinflation : 0 ≤ cfg.inflationPpm) (hbase : 0 ≤ cfg.baseEmission)
    (epochs : List (JsMap Hex F)) :
    Run.EveryStep RewardLedger.epoch CappedEmission (.new initialSupply cfg) epochs ∧
      Run.Always RewardLedger.epoch
        (fun l => l.totalSupply = initialSupply + l.earned.total fun share => share)
        (.new initialSupply cfg) epochs ∧
      Run.Always RewardLedger.epoch
        (fun l => ∀ contributions contributions' : JsMap Hex F,
          contributions.entries.Perm contributions'.entries →
            SameEpoch (l.distribute contributions) (l.distribute contributions'))
        (.new initialSupply cfg) epochs := by
  have hnew : (RewardLedger.new initialSupply cfg).Accounted initialSupply :=
    { initial_nonneg := hsupply
      inflation_nonneg := hinflation
      base_nonneg := hbase
      supply_nonneg := hsupply
      supply_eq := (Int.add_zero _).symm }
  have hstep : ∀ (l : RewardLedger) (contributions : JsMap Hex F), l.Accounted initialSupply →
      True → (l.epoch contributions).Accounted initialSupply := fun l contributions hl _ =>
    accounted_epoch hl contributions
  have hmeet : Run.StepsMeet (RewardLedger.epoch (F := F)) (fun _ _ => True)
      (.new initialSupply cfg) epochs := Run.stepsMeet_of_forall (fun _ _ => trivial) _ _
  refine ⟨?_, ?_, ?_⟩
  · exact Run.everyStep_of_invariant hstep
      (fun l contributions hl _ => cappedEmission_epoch hl contributions) hnew hmeet
  · exact Run.always_of_invariant hstep (fun l hl => hl.supply_eq) hnew hmeet
  · exact Run.always_of_invariant hstep
      (fun l _ contributions contributions' hperm => sameEpoch_of_perm l hperm) hnew hmeet

theorem emission_of_two_epochs :
    let cfg : RewardConfig := ⟨10000, 100⟩
    let epochs : List (JsMap Hex Rat) := [((JsMap.empty.set "aa" 3).set "bb" (1 / 2)).set "cc" (-1),
      JsMap.empty.set "bb" 1]
    (0 ≤ (1000000 : Int) ∧ 0 ≤ cfg.inflationPpm ∧ 0 ≤ cfg.baseEmission) ∧
      Run.EveryStep RewardLedger.epoch CappedEmission (.new 1000000 cfg) epochs ∧
      Run.Always RewardLedger.epoch
        (fun l => l.totalSupply = 1000000 + l.earned.total fun share => share)
        (.new 1000000 cfg) epochs ∧
      Run.Always RewardLedger.epoch
        (fun l => ∀ contributions contributions' : JsMap Hex Rat,
          contributions.entries.Perm contributions'.entries →
            SameEpoch (l.distribute contributions) (l.distribute contributions'))
        (.new 1000000 cfg) epochs :=
  ⟨by decide, emission_capped_and_accounted _ (by decide) (by decide) (by decide) _⟩

end Runs

end NeuronWeb
