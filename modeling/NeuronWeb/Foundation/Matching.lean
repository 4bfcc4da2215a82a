import Mathlib.Data.Finset.Card
import Mathlib.Data.Fintype.Basic
import Mathlib.Tactic.Linarith

set_option autoImplicit false

/-!
# Pairings between two sides

An item stands for a pair: it has a side on the left and a side on the right. A pairing takes
items no two of which share a side. How many left sides can be had with items whose right sides
differ? A pairing `M` has as many as possible exactly when it is `Settled`: starting from a left
side that it leaves out, and passing from a left side to those that hold one of its right sides,
one never comes to a right side that is free.
-/

namespace NeuronWeb.Matching

variable {α κ δ : Type} (left : α → κ) (right : α → δ)

/-- Items that share no side. -/
structure Pairing (l : List α) : Prop where
  left : (l.map left).Nodup
  right : (l.map right).Nodup

/-- The left sides that exchanges can serve, starting from those that `M` leaves out. -/
inductive Exchangeable (C M : List α) : κ → Prop where
  | unmatched {q : α} (mem : q ∈ C) (alone : ∀ p ∈ M, left p ≠ left q) :
      Exchangeable C M (left q)
  | passed {q p : α} (h : Exchangeable C M (left q)) (mem : q ∈ C) (held : p ∈ M)
      (same : right p = right q) : Exchangeable C M (left p)

/-- No exchange ends at a free right side. -/
def Settled (C M : List α) : Prop :=
  ∀ q ∈ C, Exchangeable left right C M (left q) → ∃ p ∈ M, right p = right q

variable {left right} {C M X : List α}

/-! ## A settled pairing cannot be beaten -/

section Bound

variable [DecidableEq κ]

theorem card_left_le_length (l : List α) : (l.map left).toFinset.card ≤ l.length :=
  (List.toFinset_card_le _).trans (List.length_map _).le

/-- Items with different right sides, all of them held by items of `l`, are not more than `l`. -/
theorem length_le_of_right_subset {l : List α} (hX : (X.map right).Nodup)
    (hsub : ∀ x ∈ X, ∃ p ∈ l, right p = right x) : X.length ≤ l.length := by
  have hsubset : X.map right ⊆ l.map right := by
    intro d hd
    obtain ⟨x, hx, rfl⟩ := List.mem_map.mp hd
    obtain ⟨p, hp, hright⟩ := hsub x hx
    exact List.mem_map.mpr ⟨p, hp, hright⟩
  have hlength := (List.subperm_of_subset hX hsubset).length_le
  rwa [List.length_map, List.length_map] at hlength

/-- No choice of items with different right sides has more left sides than a settled pairing. -/
theorem Settled.card_left_le (h : Settled left right C M) (hX : X ⊆ C)
    (hright : (X.map right).Nodup) : (X.map left).toFinset.card ≤ M.length := by
  classical
  -- the left sides that exchanges can serve, and the others
  let reach : α → Bool := fun p => decide (Exchangeable left right C M (left p))
  have hin : ((X.filter reach).map left).toFinset.card ≤ (M.filter reach).length := by
    have hdistinct : ((X.filter reach).map right).Nodup :=
      hright.sublist (List.Sublist.map right List.filter_sublist)
    refine (card_left_le_length _).trans (length_le_of_right_subset hdistinct ?_)
    intro x hx
    obtain ⟨hxX, hreach⟩ := List.mem_filter.mp hx
    obtain ⟨p, hp, hsame⟩ := h x (hX hxX) (of_decide_eq_true hreach)
    refine ⟨p, List.mem_filter.mpr ⟨hp, decide_eq_true ?_⟩, hsame⟩
    exact .passed (of_decide_eq_true hreach) (hX hxX) hp hsame
  have hout : ((X.filter fun x => !reach x).map left).toFinset.card ≤
      (M.filter fun p => !reach p).length := by
    have hfew : ((M.filter fun p => !reach p).map left).toFinset.card ≤
        (M.filter fun p => !reach p).length := card_left_le_length _
    refine le_trans (Finset.card_le_card fun c hc => ?_) hfew
    obtain ⟨x, hx, rfl⟩ := List.mem_map.mp (List.mem_toFinset.mp hc)
    obtain ⟨hxX, hreach⟩ := List.mem_filter.mp hx
    rw [Bool.not_eq_true', decide_eq_false_iff_not] at hreach
    have hmatched : ∃ p ∈ M, left p = left x := by
      by_contra hnone
      simp only [not_exists, not_and] at hnone
      exact hreach (.unmatched (hX hxX) hnone)
    obtain ⟨p, hp, hleft⟩ := hmatched
    refine List.mem_toFinset.mpr (List.mem_map.mpr ⟨p, List.mem_filter.mpr ⟨hp, ?_⟩, hleft⟩)
    rw [Bool.not_eq_true', decide_eq_false_iff_not, hleft]
    exact hreach
  have hsplit : (X.map left).toFinset ⊆ ((X.filter reach).map left).toFinset ∪
      ((X.filter fun x => !reach x).map left).toFinset := by
    intro c hc
    obtain ⟨x, hx, rfl⟩ := List.mem_map.mp (List.mem_toFinset.mp hc)
    rw [Finset.mem_union, List.mem_toFinset, List.mem_toFinset]
    cases hreach : reach x with
    | true => exact .inl (List.mem_map.mpr ⟨x, List.mem_filter.mpr ⟨hx, hreach⟩, rfl⟩)
    | false =>
      refine .inr (List.mem_map.mpr ⟨x, List.mem_filter.mpr ⟨hx, ?_⟩, rfl⟩)
      rw [hreach]
      rfl
  calc (X.map left).toFinset.card
      ≤ _ := Finset.card_le_card hsplit
    _ ≤ _ := Finset.card_union_le _ _
    _ ≤ (M.filter reach).length + (M.filter fun p => !reach p).length := Nat.add_le_add hin hout
    _ = M.length := (List.length_eq_length_filter_add reach).symm

end Bound

/-! ## An exchange makes room -/

variable (left right)

/-- A left side that is reached by `n` exchanges. -/
def Reached (C M : List α) : Nat → κ → Prop
  | 0, c => (∃ q ∈ C, left q = c) ∧ ∀ p ∈ M, left p ≠ c
  | n + 1, c => ∃ q ∈ C, ∃ p ∈ M, Reached C M n (left q) ∧ right p = right q ∧ left p = c

variable {left right}

theorem Exchangeable.reached {c : κ} (h : Exchangeable left right C M c) :
    ∃ n, Reached left right C M n c := by
  induction h with
  | unmatched mem alone => exact ⟨0, ⟨_, mem, rfl⟩, alone⟩
  | passed h mem held same ih =>
    obtain ⟨n, hn⟩ := ih
    exact ⟨n + 1, _, mem, _, held, hn, same, rfl⟩

theorem exists_first {c : κ} {n : Nat} (h : Reached left right C M n c) :
    ∃ m ≤ n, Reached left right C M m c ∧ ∀ k < m, ¬ Reached left right C M k c := by
  classical
  have hex : ∃ m, Reached left right C M m c := ⟨n, h⟩
  exact ⟨Nat.find hex, Nat.find_le h, Nat.find_spec hex, fun k hk => Nat.find_min hex hk⟩

theorem Pairing.nodup (h : Pairing left right M) : M.Nodup := h.left.of_map

section Exchange

variable [DecidableEq α] {p q : α}

theorem mem_exchange {x : α} (hx : x ∈ q :: M.erase p) : x = q ∨ x ∈ M := by
  rcases List.mem_cons.mp hx with rfl | hx
  · exact .inl rfl
  · exact .inr (List.mem_of_mem_erase hx)

/-- The item `q` takes the place of `p`, which has the same left side. -/
theorem Pairing.exchange (h : Pairing left right M) (hp : p ∈ M) (hleft : left p = left q)
    (hfree : ∀ p' ∈ M, right p' ≠ right q) : Pairing left right (q :: M.erase p) := by
  have hsublist : (M.erase p).Sublist M := List.erase_sublist
  constructor
  · rw [List.map_cons, List.nodup_cons]
    refine ⟨fun hmem => ?_, h.left.sublist (hsublist.map left)⟩
    obtain ⟨p', hp', hsame⟩ := List.mem_map.mp hmem
    obtain ⟨hne, hp'M⟩ := (h.nodup.mem_erase_iff).mp hp'
    exact hne (List.inj_on_of_nodup_map h.left hp'M hp (hsame.trans hleft.symm))
  · rw [List.map_cons, List.nodup_cons]
    refine ⟨fun hmem => ?_, h.right.sublist (hsublist.map right)⟩
    obtain ⟨p', hp', hsame⟩ := List.mem_map.mp hmem
    exact hfree p' (hsublist.subset hp') hsame

/-- Exchanges that do not come to the left side of `p` are still there without `p`. -/
theorem reached_exchange {n : Nat} (hp : p ∈ M) (hleft : left p = left q)
    (hfirst : ∀ k ≤ n, ¬ Reached left right C M k (left p)) {k : Nat} (hk : k ≤ n) {c : κ}
    (h : Reached left right C M k c) : Reached left right C (q :: M.erase p) k c := by
  induction k generalizing c with
  | zero =>
    refine ⟨h.1, fun p' hp' => ?_⟩
    rcases mem_exchange hp' with rfl | hp'
    · rw [← hleft]
      exact h.2 p hp
    · exact h.2 p' hp'
  | succ k ih =>
    obtain ⟨q', hq', p', hp', hbefore, hright, rfl⟩ := h
    have hne : p' ≠ p := by
      rintro rfl
      exact hfirst (k + 1) hk ⟨q', hq', p', hp', hbefore, hright, rfl⟩
    refine ⟨q', hq', p', List.mem_cons_of_mem q ?_, ih (by omega) hbefore, hright, rfl⟩
    exact (List.mem_erase_of_ne hne).mpr hp'

/-- A free right side that exchanges lead to lets the pairing grow by one. -/
theorem larger_of_reached (n : Nat) : ∀ {M : List α} {q : α}, Pairing left right M → M ⊆ C →
    q ∈ C → (∀ p ∈ M, right p ≠ right q) → Reached left right C M n (left q) →
    (∀ k < n, ¬ Reached left right C M k (left q)) →
    ∃ M' : List α, Pairing left right M' ∧ M' ⊆ C ∧ M'.length = M.length + 1 := by
  induction n using Nat.strong_induction_on with
  | _ n ih =>
    intro M q hM hsub hq hfree hreached hfirst
    cases n with
    | zero =>
      refine ⟨q :: M, ⟨?_, ?_⟩, List.cons_subset.mpr ⟨hq, hsub⟩, rfl⟩
      · rw [List.map_cons, List.nodup_cons]
        refine ⟨fun hmem => ?_, hM.left⟩
        obtain ⟨p, hp, hsame⟩ := List.mem_map.mp hmem
        exact hreached.2 p hp hsame
      · rw [List.map_cons, List.nodup_cons]
        refine ⟨fun hmem => ?_, hM.right⟩
        obtain ⟨p, hp, hsame⟩ := List.mem_map.mp hmem
        exact hfree p hp hsame
    | succ n =>
      obtain ⟨q', hq', p, hp, hbefore, hright, hleft⟩ := hreached
      -- `q` serves the left side of `p`, and what `p` held is free for `q'`
      have hexchange := hM.exchange hp hleft hfree
      have hsub' : q :: M.erase p ⊆ C :=
        List.cons_subset.mpr ⟨hq, fun x hx => hsub (List.mem_of_mem_erase hx)⟩
      have hfree' : ∀ p' ∈ q :: M.erase p, right p' ≠ right q' := by
        intro p' hp' hsame
        rcases List.mem_cons.mp hp' with rfl | hp'
        · exact hfree p hp (hright.trans hsame.symm)
        · obtain ⟨hne, hp'M⟩ := (hM.nodup.mem_erase_iff).mp hp'
          exact hne (List.inj_on_of_nodup_map hM.right hp'M hp (hsame.trans hright.symm))
      have hreached' : Reached left right C (q :: M.erase p) n (left q') :=
        reached_exchange hp hleft (fun k hk => hleft ▸ hfirst k (by omega)) le_rfl hbefore
      obtain ⟨m, hm, hat, hnone⟩ := exists_first hreached'
      obtain ⟨M', hM', hsub'', hlength⟩ :=
        ih m (by omega) hexchange hsub' hq' hfree' hat hnone
      refine ⟨M', hM', hsub'', ?_⟩
      rw [hlength, List.length_cons, List.length_erase_of_mem hp]
      have hpos := List.length_pos_of_mem hp
      omega

theorem exists_larger (hM : Pairing left right M) (hsub : M ⊆ C)
    (hopen : ¬ Settled left right C M) :
    ∃ M' : List α, Pairing left right M' ∧ M' ⊆ C ∧ M'.length = M.length + 1 := by
  simp only [Settled, not_forall, not_exists, not_and] at hopen
  obtain ⟨q, hq, hexchangeable, hfree⟩ := hopen
  obtain ⟨n, hn⟩ := hexchangeable.reached
  obtain ⟨m, -, hreached, hfirst⟩ := exists_first hn
  exact larger_of_reached m hM hsub hq hfree hreached hfirst

end Exchange

/-! ## Filling up -/

/-- Items with different right sides can be filled up to any number that there are right sides
for. -/
theorem exists_filled [DecidableEq δ] {n : Nat} (hright : (M.map right).Nodup) (hsub : M ⊆ C)
    (hle : M.length ≤ n) (hn : n ≤ (C.map right).toFinset.card) :
    ∃ X : List α, M ⊆ X ∧ X ⊆ C ∧ (X.map right).Nodup ∧ X.length = n := by
  obtain ⟨missing, rfl⟩ := Nat.exists_eq_add_of_le hle
  clear hle
  induction missing generalizing M with
  | zero => exact ⟨M, List.Subset.refl M, hsub, hright, rfl⟩
  | succ missing ih =>
    have hfree : ∃ q ∈ C, right q ∉ M.map right := by
      by_contra hnone
      simp only [not_exists, not_and, not_not] at hnone
      have hall : (C.map right).toFinset ⊆ (M.map right).toFinset := by
        intro d hd
        obtain ⟨q, hq, rfl⟩ := List.mem_map.mp (List.mem_toFinset.mp hd)
        exact List.mem_toFinset.mpr (hnone q hq)
      have hcard := (Finset.card_le_card hall).trans (List.toFinset_card_le _)
      rw [List.length_map] at hcard
      omega
    obtain ⟨q, hq, hfresh⟩ := hfree
    obtain ⟨X, hX, hXsub, hXright, hlength⟩ := ih (M := q :: M)
      (by rw [List.map_cons, List.nodup_cons]; exact ⟨hfresh, hright⟩)
      (List.cons_subset.mpr ⟨hq, hsub⟩) (by rw [List.length_cons]; omega)
    refine ⟨X, fun x hx => hX (List.mem_cons_of_mem q hx), hXsub, hXright, ?_⟩
    rw [hlength, List.length_cons]
    omega

/-- A pairing that is smaller than `n` has as many left sides as `n` items with different right
sides can have if and only if it is settled. -/
theorem settled_iff [DecidableEq α] [DecidableEq κ] [DecidableEq δ] {n : Nat}
    (hM : Pairing left right M) (hsub : M ⊆ C) (hlt : M.length < n)
    (hn : n ≤ (C.map right).toFinset.card) :
    Settled left right C M ↔ ∀ X : List α, X ⊆ C → (X.map right).Nodup → X.length = n →
      (X.map left).toFinset.card ≤ M.length := by
  constructor
  · intro h X hX hright _
    exact h.card_left_le hX hright
  · intro hbest
    by_contra hopen
    obtain ⟨M', hM', hsub', hlength⟩ := exists_larger hM hsub hopen
    obtain ⟨X, hM'X, hX, hright, hXlength⟩ := exists_filled hM'.right hsub' (by omega) hn
    have hmore : M'.length ≤ (X.map left).toFinset.card := by
      have hcard : (M'.map left).toFinset.card = M'.length := by
        rw [List.toFinset_card_of_nodup hM'.left, List.length_map]
      rw [← hcard]
      refine Finset.card_le_card fun c hc => ?_
      obtain ⟨x, hx, rfl⟩ := List.mem_map.mp (List.mem_toFinset.mp hc)
      exact List.mem_toFinset.mpr (List.mem_map.mpr ⟨x, hM'X hx, rfl⟩)
    have hle := hbest X hX hright hXlength
    omega

end NeuronWeb.Matching
