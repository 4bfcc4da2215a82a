import Mathlib.Data.List.Induction
import Mathlib.Data.List.Pairwise
import Mathlib.Data.List.Perm.Basic

set_option autoImplicit false

/-!
# A contest with two rankings

Entrants of one kind are ranked by one order and entrants of different kinds by another.
Each order alone has a best entrant; the two together need not, and then which kind stands
at the end depends on who comes when.  `kind_const_iff` says that it does not exactly when
some entrant is ahead of all the others.
-/

namespace NeuronWeb.TwoRankings

variable {α κ : Type}

/-- A relation that ranks the members of a list, all of them different. -/
structure Ranks (r : α → α → Bool) (l : List α) : Prop where
  asymm : ∀ x ∈ l, ∀ y ∈ l, r x y = true → r y x = false
  trans : ∀ x ∈ l, ∀ y ∈ l, ∀ z ∈ l, r x y = true → r y z = true → r x z = true
  connected : l.Pairwise fun x y => r x y = true ∨ r y x = true

namespace Ranks

variable {r : α → α → Bool} {l l' : List α}

section

variable (h : Ranks r l)
include h

theorem irrefl {x : α} (hx : x ∈ l) : r x x = false := by
  cases hr : r x x with
  | false => rfl
  | true => exact hr.symm.trans (h.asymm x hx x hx hr)

theorem nodup : l.Nodup := by
  refine h.connected.imp_of_mem fun {x y} hx _ hor heq => ?_
  subst heq
  rcases hor with hr | hr
  · rw [h.irrefl hx] at hr
    cases hr
  · rw [h.irrefl hx] at hr
    cases hr

theorem perm (hperm : l.Perm l') : Ranks r l' where
  asymm x hx y hy := h.asymm x (hperm.mem_iff.mpr hx) y (hperm.mem_iff.mpr hy)
  trans x hx y hy z hz :=
    h.trans x (hperm.mem_iff.mpr hx) y (hperm.mem_iff.mpr hy) z (hperm.mem_iff.mpr hz)
  connected := hperm.pairwise h.connected fun {_ _} hor => hor.symm

theorem filter (p : α → Bool) : Ranks r (l.filter p) where
  asymm x hx y hy := h.asymm x (List.mem_of_mem_filter hx) y (List.mem_of_mem_filter hy)
  trans x hx y hy z hz := h.trans x (List.mem_of_mem_filter hx) y (List.mem_of_mem_filter hy) z
    (List.mem_of_mem_filter hz)
  connected := h.connected.filter p

theorem connected_of_ne {x y : α} (hx : x ∈ l) (hy : y ∈ l) (hne : x ≠ y) :
    r x y = true ∨ r y x = true := by
  have hsymm : Std.Symm fun x y => r x y = true ∨ r y x = true := ⟨fun _ _ hor => hor.symm⟩
  exact h.connected.forall hx hy hne

/-- The best of the list. -/
theorem exists_top (hne : l ≠ []) : ∃ m ∈ l, ∀ x ∈ l, x ≠ m → r m x = true := by
  induction l with
  | nil => exact absurd rfl hne
  | cons a rest ih =>
    cases hrest : rest with
    | nil =>
      refine ⟨a, List.mem_cons_self, fun x hx hxa => ?_⟩
      exact absurd (List.mem_singleton.mp hx) hxa
    | cons b tail =>
      rw [← hrest]
      have htail : Ranks r rest :=
        ⟨fun x hx y hy => h.asymm x (List.mem_cons_of_mem a hx) y (List.mem_cons_of_mem a hy),
          fun x hx y hy z hz => h.trans x (List.mem_cons_of_mem a hx) y
            (List.mem_cons_of_mem a hy) z (List.mem_cons_of_mem a hz),
          (List.pairwise_cons.mp h.connected).2⟩
      obtain ⟨m, hm, hbest⟩ := ih htail (by rw [hrest]; exact List.cons_ne_nil b tail)
      have hma := List.mem_cons_of_mem a hm
      rcases (List.pairwise_cons.mp h.connected).1 m hm with ham | hma'
      · refine ⟨a, List.mem_cons_self, fun x hx hxa => ?_⟩
        rcases List.mem_cons.mp hx with rfl | hx
        · exact absurd rfl hxa
        · by_cases hxm : x = m
          · exact hxm ▸ ham
          · exact h.trans a List.mem_cons_self m hma x (List.mem_cons_of_mem a hx) ham
              (hbest x hx hxm)
      · refine ⟨m, hma, fun x hx hxm => ?_⟩
        rcases List.mem_cons.mp hx with rfl | hx
        · exact hma'
        · exact hbest x hx hxm

end

end Ranks

/-- The kind of an entrant, and the two orders. -/
structure Rule (α κ : Type) where
  kind : α → κ
  /-- Within a kind. -/
  higher : α → α → Bool
  /-- Between kinds. -/
  later : α → α → Bool

namespace Rule

variable [DecidableEq κ] (R : Rule α κ)

/-- Whether an entrant takes the place of the one that stands. -/
def beats (x held : α) : Bool :=
  if R.kind x = R.kind held then R.higher x held else R.later x held

def challenge (best : Option α) (x : α) : Option α :=
  match best with
  | none => some x
  | some held => some (if R.beats x held then x else held)

/-- Who stands at the end. -/
def stands (l : List α) : Option α := l.foldl R.challenge none

variable {R} {l : List α} {w : α}

theorem stands_append_singleton (l : List α) (x : α) :
    R.stands (l ++ [x]) = R.challenge (R.stands l) x := by
  rw [stands, List.foldl_append]
  rfl

theorem challenge_eq_or (best : Option α) (x : α) :
    R.challenge best x = some x ∨ ∃ held, best = some held ∧ R.beats x held = false ∧
      R.challenge best x = some held := by
  cases best with
  | none => exact .inl rfl
  | some held =>
    rw [challenge]
    cases hbeats : R.beats x held with
    | true => exact .inl rfl
    | false => exact .inr ⟨held, rfl, hbeats, rfl⟩

theorem mem_of_stands {x : α} (h : R.stands l = some x) : x ∈ l := by
  induction l using List.reverseRecOn generalizing x with
  | nil => cases h
  | append_singleton l y ih =>
    rw [stands_append_singleton] at h
    rcases R.challenge_eq_or (R.stands l) y with hy | ⟨held, hheld, -, hstays⟩
    · rw [hy, Option.some_inj] at h
      exact h ▸ List.mem_append_right l (List.mem_singleton_self y)
    · rw [hstays, Option.some_inj] at h
      exact List.mem_append_left _ (ih (h ▸ hheld))

/-- Both orders rank the entrants. -/
structure Ranked (R : Rule α κ) (l : List α) : Prop where
  higher : Ranks R.higher l
  later : Ranks R.later l

theorem Ranked.beats_asymm (h : R.Ranked l) {x y : α} (hx : x ∈ l) (hy : y ∈ l)
    (hbeats : R.beats x y = true) : R.beats y x = false := by
  unfold beats at hbeats ⊢
  split at hbeats
  case isTrue heq =>
    rw [if_pos heq.symm]
    exact h.higher.asymm x hx y hy hbeats
  case isFalse hne =>
    rw [if_neg (Ne.symm hne)]
    exact h.later.asymm x hx y hy hbeats

/-- An entrant ahead of all the others stands at the end, in whatever order they come. -/
theorem Ranked.stands_eq (h : R.Ranked l) (hw : w ∈ l)
    (hahead : ∀ x ∈ l, x ≠ w → R.beats w x = true) : R.stands l = some w := by
  have hkeep : ∀ x ∈ l, R.beats x w = false := by
    intro x hx
    by_cases hxw : x = w
    · subst hxw
      rw [beats, if_pos rfl]
      exact h.higher.irrefl hx
    · exact h.beats_asymm hw hx (hahead x hx hxw)
  have hfront : ∀ l', l' ⊆ l → w ∈ l' → R.stands l' = some w := by
    intro l'
    induction l' using List.reverseRecOn with
    | nil =>
      intro _ hmem
      exact absurd hmem List.not_mem_nil
    | append_singleton l' x ih =>
      intro hsub hmem
      have hx : x ∈ l := hsub (List.mem_append_right l' (List.mem_singleton_self x))
      have hl' : l' ⊆ l := fun y hy => hsub (List.mem_append_left _ hy)
      rw [stands_append_singleton]
      by_cases hcome : w ∈ l'
      · rw [ih hl' hcome, challenge, hkeep x hx]
        rfl
      · have hwx : w = x :=
          List.mem_singleton.mp ((List.mem_append.mp hmem).resolve_left hcome)
        subst hwx
        rcases R.challenge_eq_or (R.stands l') w with hstands | ⟨held, hheld, hlost, -⟩
        · exact hstands
        · have hmemHeld := mem_of_stands hheld
          have hne : held ≠ w := by
            rintro rfl
            exact hcome hmemHeld
          rw [hahead held (hl' hmemHeld) hne] at hlost
          cases hlost
  exact hfront l (List.Subset.refl l) hw

/-- The kind that stands at the end is the same in every order exactly when some entrant is
ahead of all the others, or nobody comes. -/
theorem Ranked.kind_const_iff (h : R.Ranked l) :
    (∀ l' : List α, l'.Perm l → (R.stands l').map R.kind = (R.stands l).map R.kind) ↔
      l = [] ∨ ∃ w ∈ l, ∀ x ∈ l, x ≠ w → R.beats w x = true := by
  classical
  constructor
  · intro hconst
    by_contra hno
    simp only [not_or, not_exists, not_and, not_forall] at hno
    obtain ⟨hne, hbeaten⟩ := hno
    -- `M` came into being last, `V` is the highest of its kind
    obtain ⟨M, hM, hlatest⟩ := h.later.exists_top hne
    have hmine : (l.filter fun x => decide (R.kind x = R.kind M)) ≠ [] :=
      List.ne_nil_of_mem (List.mem_filter.mpr ⟨hM, decide_eq_true rfl⟩)
    obtain ⟨V, hV, hhighest⟩ := (h.higher.filter _).exists_top hmine
    obtain ⟨hVl, hVkind⟩ := List.mem_filter.mp hV
    have hVM : R.kind V = R.kind M := of_decide_eq_true hVkind
    obtain ⟨w, hw, hwV, hnot⟩ := hbeaten V hVl
    have hbest : ∀ x ∈ l, x ≠ V → R.kind x = R.kind M → R.beats V x = true := by
      intro x hx hxV hkind
      rw [beats, if_pos (hVM.trans hkind.symm)]
      exact hhighest x (List.mem_filter.mpr ⟨hx, decide_eq_true hkind⟩) hxV
    have hwkind : R.kind w ≠ R.kind M := fun hkind => hnot (hbest w hw hwV hkind)
    have hwV' : R.beats w V = true := by
      have hkind : R.kind w ≠ R.kind V := fun heq => hwkind (heq.trans hVM)
      rw [beats, if_neg hkind]
      rcases h.later.connected_of_ne hw hVl hwV with hlater | hlater
      · exact hlater
      · rw [beats, if_neg (Ne.symm hkind)] at hnot
        exact absurd hlater hnot
    -- with `M` last its kind stands
    have hlast : (R.stands (l.erase M ++ [M])).map R.kind = some (R.kind M) := by
      rw [stands_append_singleton]
      rcases R.challenge_eq_or (R.stands (l.erase M)) M with hstands | ⟨held, hheld, hlost, hstays⟩
      · rw [hstands, Option.map_some]
      · rw [hstays, Option.map_some]
        by_contra hkind
        have hother : R.kind M ≠ R.kind held := fun heq => hkind (congrArg some heq.symm)
        have hmem := List.mem_of_mem_erase (mem_of_stands hheld)
        rw [beats, if_neg hother, hlatest held hmem fun heq => hother (congrArg R.kind heq).symm]
          at hlost
        cases hlost
    -- with `V` and `w` last another one does
    have hrest : (((l.erase V).erase w ++ [V]) ++ [w]).Perm l := by
      have hwe : w ∈ l.erase V := (List.mem_erase_of_ne hwV).mpr hw
      calc (((l.erase V).erase w ++ [V]) ++ [w]).Perm (w :: V :: (l.erase V).erase w) :=
            (List.perm_append_singleton w _).trans
              ((List.perm_append_singleton V _).cons w)
        List.Perm _ (V :: w :: (l.erase V).erase w) := List.Perm.swap V w _
        List.Perm _ (V :: l.erase V) := (List.perm_cons_erase hwe).symm.cons V
        List.Perm _ l := (List.perm_cons_erase hVl).symm
    have hother : (R.stands (((l.erase V).erase w ++ [V]) ++ [w])).map R.kind ≠
        some (R.kind M) := by
      rw [stands_append_singleton, stands_append_singleton]
      rcases R.challenge_eq_or (R.stands ((l.erase V).erase w)) V with
        hstands | ⟨held, hheld, hlost, hstays⟩
      · rw [hstands, challenge, hwV', if_pos rfl, Option.map_some]
        exact fun heq => hwkind (Option.some_inj.mp heq)
      · have hmem := List.mem_of_mem_erase (mem_of_stands hheld)
        have hheldV : held ≠ V := by
          rintro rfl
          exact h.higher.nodup.not_mem_erase hmem
        have hheldkind : R.kind held ≠ R.kind M := by
          intro hkind
          rw [hbest held (List.mem_of_mem_erase hmem) hheldV hkind] at hlost
          cases hlost
        rw [hstays]
        rcases R.challenge_eq_or (some held) w with hw' | ⟨held', hheld', -, hstays'⟩
        · rw [hw', Option.map_some]
          exact fun heq => hwkind (Option.some_inj.mp heq)
        · rw [hstays', Option.map_some, ← Option.some_inj.mp hheld']
          exact fun heq => hheldkind (Option.some_inj.mp heq)
    have hsame := (hconst _ hrest).trans
      (hconst _ ((List.perm_append_singleton M _).trans (List.perm_cons_erase hM).symm)).symm
    rw [hlast] at hsame
    exact hother hsame
  · rintro (rfl | ⟨w, hw, hahead⟩) l' hperm
    · rw [hperm.eq_nil]
    · have h' : R.Ranked l' := ⟨h.higher.perm hperm.symm, h.later.perm hperm.symm⟩
      rw [h.stands_eq hw hahead, h'.stands_eq (hperm.mem_iff.mpr hw) fun x hx =>
        hahead x (hperm.mem_iff.mp hx)]

end Rule

end NeuronWeb.TwoRankings
