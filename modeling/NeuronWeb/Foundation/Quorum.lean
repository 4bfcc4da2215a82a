/-
  Foundation/Quorum: weighted quorums.

  A finite set of votes, each with a choice and a weight.  Two choices that are both
  backed by a quorum `q` are the same choice when all the votes together weigh less
  than `2 * q`: the votes behind two different choices are disjoint.
-/
import Mathlib.Algebra.Order.BigOperators.Group.Finset

set_option autoImplicit false

namespace NeuronWeb.Quorum

variable {V C : Type} [DecidableEq C]

/-- The weight behind the choice `a`. -/
def backing (votes : Finset V) (choice : V → C) (weight : V → Nat) (a : C) : Nat :=
  ∑ v ∈ votes with choice v = a, weight v

theorem sum_filter_le_backing {votes : Finset V} {choice : V → C} {weight : V → Nat} {a : C}
    {p : V → Prop} [DecidablePred p] (hp : ∀ v ∈ votes, p v → choice v = a) :
    ∑ v ∈ votes with p v, weight v ≤ backing votes choice weight a := by
  refine Finset.sum_le_sum_of_subset fun v hv => ?_
  rw [Finset.mem_filter] at hv ⊢
  exact ⟨hv.1, hp v hv.1 hv.2⟩

/-- Different choices share no vote. -/
theorem backing_add_backing_le (votes : Finset V) (choice : V → C) (weight : V → Nat)
    {a b : C} (hab : a ≠ b) :
    backing votes choice weight a + backing votes choice weight b ≤ ∑ v ∈ votes, weight v := by
  classical
  have hdisjoint : Disjoint (votes.filter fun v => choice v = a)
      (votes.filter fun v => choice v = b) := by
    rw [Finset.disjoint_filter]
    rintro v _ rfl
    exact hab
  unfold backing
  rw [← Finset.sum_union hdisjoint]
  exact Finset.sum_le_sum_of_subset
    (Finset.union_subset (Finset.filter_subset _ _) (Finset.filter_subset _ _))

/-- Quorums intersect: below two quorums of total weight only one choice can have one. -/
theorem unique {votes : Finset V} {choice : V → C} {weight : V → Nat} {q : Nat}
    (hbound : ∑ v ∈ votes, weight v < 2 * q) {a b : C}
    (ha : q ≤ backing votes choice weight a) (hb : q ≤ backing votes choice weight b) :
    a = b := by
  by_contra hab
  have hle := backing_add_backing_le votes choice weight hab
  omega

end NeuronWeb.Quorum
