import Mathlib.Data.List.InsertIdx
import Mathlib.Data.List.Sort

set_option autoImplicit false

/-!
# The best of a list, by score

A selection of the `k` best takes the front of the list sorted by score.  Where no two
scores are the same, the sorted list depends on its members only, and a new member goes in
at its rank: everything else keeps its order.
-/

namespace NeuronWeb.Ranked

variable {α S : Type} [LinearOrder S] (score : α → S)

/-- The highest score first. -/
def ranked (l : List α) : List α := l.mergeSort fun a b => decide (score b ≤ score a)

/-- How many of a list score higher. -/
def rank (l : List α) (r : α) : Nat := l.countP fun a => decide (score r < score a)

/-- No two members of a list have the same score. -/
def Distinct (l : List α) : Prop := ∀ a ∈ l, ∀ b ∈ l, score a = score b → a = b

variable {score} {l l' : List α} {r : α} {k : Nat}

omit [LinearOrder S] in
theorem Distinct.perm (h : Distinct score l) (hperm : l.Perm l') : Distinct score l' :=
  fun a ha b hb => h a (hperm.mem_iff.mpr ha) b (hperm.mem_iff.mpr hb)

omit [LinearOrder S] in
theorem Distinct.of_cons (h : Distinct score (r :: l)) : Distinct score l :=
  fun a ha b hb => h a (List.mem_cons_of_mem r ha) b (List.mem_cons_of_mem r hb)

theorem ranked_perm (score : α → S) (l : List α) : (ranked score l).Perm l :=
  List.mergeSort_perm l _

@[simp] theorem length_ranked (score : α → S) (l : List α) : (ranked score l).length = l.length :=
  (ranked_perm score l).length_eq

theorem pairwise_ranked (score : α → S) (l : List α) :
    (ranked score l).Pairwise fun a b => score b ≤ score a := by
  have hsorted : (ranked score l).Pairwise fun a b => decide (score b ≤ score a) = true :=
    List.pairwise_mergeSort
      (fun a b c hab hbc =>
        decide_eq_true ((of_decide_eq_true hbc).trans (of_decide_eq_true hab)))
      (fun a b => by simpa using le_total (score b) (score a)) l
  exact hsorted.imp fun h => of_decide_eq_true h

theorem eq_ranked (h : Distinct score l) (hperm : l'.Perm l)
    (hsorted : l'.Pairwise fun a b => score b ≤ score a) : l' = ranked score l := by
  have hall := hperm.trans (ranked_perm score l).symm
  refine List.Perm.eq_of_pairwise (fun a b ha hb hab hba => ?_) hsorted (pairwise_ranked score l)
    hall
  exact h a (hperm.mem_iff.mp ha) b ((ranked_perm score l).mem_iff.mp hb)
    (le_antisymm hba hab)

theorem ranked_congr (h : Distinct score l) (hperm : l.Perm l') :
    ranked score l = ranked score l' :=
  eq_ranked (h.perm hperm) ((ranked_perm score l).trans hperm) (pairwise_ranked score l)

/-- In order of score, those above `r` come first. -/
theorem filter_append_of_pairwise (hsorted : l.Pairwise fun a b => score b ≤ score a) (r : α) :
    l = l.filter (fun a => decide (score r < score a)) ++
      l.filter (fun a => !decide (score r < score a)) := by
  induction l with
  | nil => rfl
  | cons a rest ih =>
    obtain ⟨hhead, htail⟩ := List.pairwise_cons.mp hsorted
    by_cases ha : score r < score a
    · rw [List.filter_cons_of_pos (by simpa using ha),
        List.filter_cons_of_neg (by simpa using ha), List.cons_append, ← ih htail]
    · -- whatever comes later is no higher
      have hnone : rest.filter (fun a => decide (score r < score a)) = [] := by
        rw [List.filter_eq_nil_iff]
        intro b hb
        simpa using (hhead b hb).trans (not_lt.mp ha)
      have hall : rest.filter (fun a => !decide (score r < score a)) = rest := by
        have hrest := ih htail
        rw [hnone, List.nil_append] at hrest
        exact hrest.symm
      rw [List.filter_cons_of_neg (by simpa using ha), hnone, List.nil_append,
        List.filter_cons_of_pos (by simpa using ha), hall]

theorem insertIdx_append (l l' : List α) (r : α) :
    (l ++ l').insertIdx l.length r = l ++ r :: l' := by
  induction l with
  | nil => rfl
  | cons a rest ih => rw [List.cons_append, List.length_cons, List.insertIdx_succ_cons, ih,
      List.cons_append]

/-- A new member goes in at its rank. -/
theorem ranked_cons (hr : r ∉ l) (h : Distinct score (r :: l)) :
    ranked score (r :: l) = (ranked score l).insertIdx (rank score l r) r := by
  have hsorted := pairwise_ranked score l
  have hparts := filter_append_of_pairwise hsorted r
  have hrank : rank score l r =
      ((ranked score l).filter fun a => decide (score r < score a)).length := by
    rw [← List.countP_eq_length_filter]
    exact ((ranked_perm score l).countP_eq _).symm
  have hinsert : (ranked score l).insertIdx (rank score l r) r =
      (ranked score l).filter (fun a => decide (score r < score a)) ++
        r :: (ranked score l).filter (fun a => !decide (score r < score a)) := by
    have happend := insertIdx_append
      ((ranked score l).filter fun a => decide (score r < score a))
      ((ranked score l).filter fun a => !decide (score r < score a)) r
    rwa [← hparts, ← hrank] at happend
  symm
  refine eq_ranked h ?_ ?_
  · rw [hinsert]
    refine List.perm_middle.trans (List.Perm.cons r ?_)
    rw [← hparts]
    exact ranked_perm score l
  · rw [hinsert]
    rw [hparts] at hsorted
    obtain ⟨habove, hbelow, hcross⟩ := List.pairwise_append.mp hsorted
    refine List.pairwise_append.mpr ⟨habove, List.pairwise_cons.mpr ⟨?_, hbelow⟩, ?_⟩
    · intro b hb
      have hnot := (List.mem_filter.mp hb).2
      simpa using hnot
    · intro a ha b hb
      rcases List.mem_cons.mp hb with rfl | hb
      · exact (of_decide_eq_true (List.mem_filter.mp ha).2).le
      · exact hcross a ha b hb

theorem rank_le_length (l : List α) (r : α) : rank score l r ≤ l.length := List.countP_le_length

/-! ## The front of the list -/

/-- The `k` best. -/
def best (score : α → S) (k : Nat) (l : List α) : List α := (ranked score l).take k

theorem take_succ_insertIdx {i : Nat} (h : i ≤ k) :
    (l.insertIdx i r).take (k + 1) = (l.take k).insertIdx i r := by
  induction i generalizing l k with
  | zero => rw [List.insertIdx_zero, List.take_succ_cons, List.insertIdx_zero]
  | succ i ih =>
    obtain ⟨k, rfl⟩ : ∃ j, k = j + 1 := ⟨k - 1, by omega⟩
    cases l with
    | nil => rfl
    | cons a rest =>
      rw [List.insertIdx_succ_cons, List.take_succ_cons, List.take_succ_cons,
        List.insertIdx_succ_cons, ih (by omega)]

/-- What a new member changes in the `k` best: nothing when `k` others are above it, and else
it goes in at its rank, and the last one goes if there were `k` already. -/
structure Inserted (score : α → S) (k : Nat) (l : List α) (r : α) (before after : List α) :
    Prop where
  same : k ≤ rank score l r → after = before
  rank_le : rank score l r < k → rank score l r ≤ before.length
  grown : rank score l r < k → l.length < k → after = before.insertIdx (rank score l r) r
  shifted : rank score l r < k → k ≤ l.length →
    after = (before.insertIdx (rank score l r) r).dropLast

theorem inserted_best (hr : r ∉ l) (h : Distinct score (r :: l)) :
    Inserted score k l r (best score k l) (best score k (r :: l)) := by
  have hlen : rank score l r ≤ l.length := rank_le_length l r
  have hgrown : ((ranked score l).insertIdx (rank score l r) r).length = l.length + 1 := by
    rw [List.length_insertIdx_of_le_length (by rwa [length_ranked]), length_ranked]
  rw [best, best, ranked_cons hr h]
  refine ⟨fun hk => ?_, fun hk => ?_, fun hk hshort => ?_, fun hk hlong => ?_⟩
  · exact List.take_insertIdx_eq_take_of_le _ r k _ hk
  · rw [List.length_take, length_ranked]
    omega
  · rw [List.take_of_length_le (by omega),
      List.take_of_length_le (by rw [length_ranked]; omega)]
  · rw [← take_succ_insertIdx hk.le, List.dropLast_eq_take, List.length_take, List.take_take]
    exact congrArg (fun j => List.take j _) (by omega)

end NeuronWeb.Ranked
