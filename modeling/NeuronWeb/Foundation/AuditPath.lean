/-
  Foundation/AuditPath: climbing from a leaf of a ragged binary tree to its root.

  The tree over n leaves splits them at the largest power of two below n: the left subtree is
  perfect, the right one is ragged again and no larger. The climb is given the number of the
  leaf and of the last leaf and nothing else; it finds out from the two counters on which side
  the next sibling stands, and which levels the right edge of the tree skips.
-/
import Mathlib.Data.Nat.Bits
import Mathlib.Tactic.Ring

set_option autoImplicit false

namespace NeuronWeb.AuditPath

variable {β : Type}

/-! ## Trees -/

/-- A binary tree with a value at each leaf. -/
inductive HashTree (β : Type) where
  | leaf (value : β)
  | node (left right : HashTree β)

namespace HashTree

def size : HashTree β → Nat
  | leaf _ => 1
  | node left right => left.size + right.size

/-- The values of the leaves, from left to right. -/
def leaves : HashTree β → List β
  | leaf value => [value]
  | node left right => left.leaves ++ right.leaves

/-- The value that the inner nodes compute from their children. -/
def root (hash : β → β → β) : HashTree β → β
  | leaf value => value
  | node left right => hash (left.root hash) (right.root hash)

/-- The roots of the subtrees that a leaf's way up leaves aside, the lowest first. -/
def path (hash : β → β → β) : HashTree β → Nat → List β
  | leaf _, _ => []
  | node left right, i =>
    if i < left.size then left.path hash i ++ [right.root hash]
    else right.path hash (i - left.size) ++ [left.root hash]

theorem size_pos (t : HashTree β) : 0 < t.size := by
  induction t with
  | leaf value => exact Nat.one_pos
  | node left right ihLeft _ => exact Nat.add_pos_left ihLeft _

@[simp] theorem length_leaves (t : HashTree β) : t.leaves.length = t.size := by
  induction t with
  | leaf value => rfl
  | node left right ihLeft ihRight =>
    rw [leaves, List.length_append, ihLeft, ihRight, size]

/-- All leaves at depth `h`. -/
inductive Perfect : Nat → HashTree β → Prop
  | leaf (value : β) : Perfect 0 (.leaf value)
  | node {h : Nat} {left right : HashTree β} (hleft : Perfect h left) (hright : Perfect h right) :
      Perfect (h + 1) (.node left right)

/-- A perfect tree on the left, and a ragged one that is no larger on the right. -/
inductive Ragged : HashTree β → Prop
  | leaf (value : β) : Ragged (.leaf value)
  | node {m : Nat} {left right : HashTree β} (hleft : Perfect m left) (hright : Ragged right)
      (hsize : right.size ≤ 2 ^ m) : Ragged (.node left right)

theorem Perfect.size {h : Nat} {t : HashTree β} (ht : Perfect h t) : t.size = 2 ^ h := by
  induction ht with
  | leaf value => rfl
  | node _ _ ihLeft ihRight =>
    rw [HashTree.size, ihLeft, ihRight, pow_succ]
    ring

end HashTree

/-! ## The climb -/

/-- One sibling after the other: the number `fn` of the node reached and `sn` of the last
node of its level decide on which side the sibling stands.  `drop` takes both counters down
the right edge.  `none` when the path is longer than the tree is deep. -/
def climb (hash : β → β → β) (drop : Nat → Nat → Nat × Nat) :
    List β → Nat → Nat → β → Option (Nat × β)
  | [], _, sn, r => some (sn, r)
  | p :: rest, fn, sn, r =>
    if sn = 0 then none
    else if fn % 2 = 1 ∨ fn = sn then
      let (fn', sn') := if fn % 2 = 0 then drop fn sn else (fn, sn)
      climb hash drop rest (fn' / 2) (sn' / 2) (hash p r)
    else climb hash drop rest (fn / 2) (sn / 2) (hash r p)

/-- `drop` removes the zeros behind equal counters. -/
def DropsZeros (drop : Nat → Nat → Nat × Nat) : Prop :=
  ∀ d j, drop ((2 * d + 1) * 2 ^ (j + 1)) ((2 * d + 1) * 2 ^ (j + 1)) = (2 * d + 1, 2 * d + 1)

variable {hash : β → β → β} {drop : Nat → Nat → Nat × Nat}

theorem climb_left (rest : List β) {d sn : Nat} (h : 2 * d < sn) (p r : β) :
    climb hash drop (p :: rest) (2 * d) sn r = climb hash drop rest d (sn / 2) (hash r p) := by
  have hzero : sn ≠ 0 := by omega
  have hside : ¬ (2 * d % 2 = 1 ∨ 2 * d = sn) := by omega
  have hhalf : 2 * d / 2 = d := by omega
  rw [climb, if_neg hzero, if_neg hside, hhalf]

theorem climb_right (rest : List β) {d sn : Nat} (h : 2 * d + 1 ≤ sn) (p r : β) :
    climb hash drop (p :: rest) (2 * d + 1) sn r =
      climb hash drop rest d (sn / 2) (hash p r) := by
  have hzero : sn ≠ 0 := by omega
  have hside : (2 * d + 1) % 2 = 1 ∨ 2 * d + 1 = sn := by omega
  have hodd : ¬ (2 * d + 1) % 2 = 0 := by omega
  have hhalf : (2 * d + 1) / 2 = d := by omega
  rw [climb, if_neg hzero, if_pos hside, if_neg hodd]
  simp only [hhalf]

/-- A right child at the right edge, `j` levels below its sibling. -/
theorem climb_edge (hdrop : DropsZeros drop) (rest : List β) (d j : Nat) (p r : β) :
    climb hash drop (p :: rest) ((2 * d + 1) * 2 ^ j) ((2 * d + 1) * 2 ^ j) r =
      climb hash drop rest d d (hash p r) := by
  have hhalf : (2 * d + 1) / 2 = d := by omega
  cases j with
  | zero =>
    rw [pow_zero, mul_one, climb_right rest (le_refl _), hhalf]
  | succ j =>
    have hzero : (2 * d + 1) * 2 ^ (j + 1) ≠ 0 :=
      Nat.mul_ne_zero (by omega) (Nat.two_pow_pos (j + 1)).ne'
    have heven : (2 * d + 1) * 2 ^ (j + 1) % 2 = 0 := by
      rw [pow_succ, ← mul_assoc, Nat.mul_mod_left]
    rw [climb, if_neg hzero, if_pos (Or.inr rfl), if_pos heven, hdrop d j]
    simp only [hhalf]

/-- Through a perfect subtree, the `c`th of its size and not the last one. -/
theorem climb_perfect {h : Nat} {t : HashTree β} (ht : t.Perfect h) (rest : List β) {i c sn : Nat}
    {x : β} (hx : t.leaves[i]? = some x) (hsn : c < sn / 2 ^ h) :
    climb hash drop (t.path hash i ++ rest) (c * 2 ^ h + i) sn x =
      climb hash drop rest c (sn / 2 ^ h) (t.root hash) := by
  induction ht generalizing rest i c with
  | leaf value =>
    obtain ⟨rfl, rfl⟩ : i = 0 ∧ value = x := by
      simpa [HashTree.leaves, List.getElem?_singleton] using hx
    rw [pow_zero, mul_one, add_zero, Nat.div_one]
    rfl
  | @node h left right hleft hright ihLeft ihRight =>
    have hlevel : sn / 2 ^ (h + 1) = sn / 2 ^ h / 2 := by
      rw [pow_succ, Nat.div_div_eq_div_mul]
    rw [hlevel] at hsn ⊢
    have hshift : c * 2 ^ (h + 1) = 2 * c * 2 ^ h := by ring
    rw [HashTree.leaves, List.getElem?_append, HashTree.length_leaves, hleft.size] at hx
    rw [HashTree.path, hleft.size, HashTree.root]
    by_cases hside : i < 2 ^ h
    · rw [if_pos hside] at hx
      rw [if_pos hside, List.append_assoc, hshift, ihLeft _ hx (by omega)]
      exact climb_left rest (by omega) _ _
    · rw [if_neg hside] at hx
      have hindex : c * 2 ^ (h + 1) + i = (2 * c + 1) * 2 ^ h + (i - 2 ^ h) := by
        rw [hshift, add_mul]
        omega
      rw [if_neg hside, List.append_assoc, hindex, ihRight _ hx (by omega)]
      exact climb_right rest (by omega) _ _

/-- Through a subtree at the right edge, the `c`th of size `2 ^ h`. -/
theorem climb_ragged (hdrop : DropsZeros drop) {t : HashTree β} (ht : t.Ragged) (rest : List β)
    {h i c : Nat} {x : β} (hx : t.leaves[i]? = some x) (hsize : t.size ≤ 2 ^ h) :
    ∃ j, climb hash drop (t.path hash i ++ rest) (c * 2 ^ h + i) (c * 2 ^ h + (t.size - 1)) x =
      climb hash drop rest (c * 2 ^ j) (c * 2 ^ j) (t.root hash) := by
  induction ht generalizing rest h i c with
  | leaf value =>
    obtain ⟨rfl, rfl⟩ : i = 0 ∧ value = x := by
      simpa [HashTree.leaves, List.getElem?_singleton] using hx
    exact ⟨h, rfl⟩
  | @node m left right hleft hright hsmall ih =>
    have hpos := right.size_pos
    rw [HashTree.size, hleft.size] at hsize ⊢
    -- the tree has the size of two perfect ones of height `m`, of which it is the `d`th
    obtain ⟨j, rfl⟩ : ∃ j, h = m + 1 + j := by
      have hlt : 2 ^ m < 2 ^ h := by omega
      have hm : m < h := (Nat.pow_lt_pow_iff_right (by omega)).mp hlt
      exact ⟨h - (m + 1), by omega⟩
    refine ⟨j, ?_⟩
    generalize hd : c * 2 ^ j = d
    have hshift : c * 2 ^ (m + 1 + j) = 2 * d * 2 ^ m := by
      rw [← hd]
      ring
    have hnext : (2 * d + 1) * 2 ^ m = 2 * d * 2 ^ m + 2 ^ m := by ring
    rw [hshift]
    rw [HashTree.leaves, List.getElem?_append, HashTree.length_leaves, hleft.size] at hx
    rw [HashTree.path, hleft.size, HashTree.root]
    by_cases hside : i < 2 ^ m
    · rw [if_pos hside] at hx
      have hlast : (2 * d * 2 ^ m + (2 ^ m + right.size - 1)) / 2 ^ m = 2 * d + 1 := by
        apply Nat.div_eq_of_lt_le
        · rw [hnext]
          omega
        · have habove : (2 * d + 1 + 1) * 2 ^ m = 2 * d * 2 ^ m + 2 ^ m + 2 ^ m := by ring
          rw [habove]
          omega
      have hhalf : (2 * d + 1) / 2 = d := by omega
      rw [if_pos hside, List.append_assoc, climb_perfect hleft _ hx (by omega), hlast,
        List.singleton_append, climb_left rest (by omega), hhalf]
    · rw [if_neg hside] at hx
      have hindex : 2 * d * 2 ^ m + i = (2 * d + 1) * 2 ^ m + (i - 2 ^ m) := by
        rw [hnext]
        omega
      have hlast : 2 * d * 2 ^ m + (2 ^ m + right.size - 1) =
          (2 * d + 1) * 2 ^ m + (right.size - 1) := by
        rw [hnext]
        omega
      obtain ⟨k, hclimb⟩ := ih ([left.root hash] ++ rest) (c := 2 * d + 1) hx hsmall
      rw [if_neg hside, List.append_assoc, hindex, hlast, hclimb, List.singleton_append,
        climb_edge hdrop]

/-- The climb from a leaf with its path ends at the root, with nothing left. -/
theorem climb_path (hdrop : DropsZeros drop) {t : HashTree β} (ht : t.Ragged) {i : Nat} {x : β}
    (hx : t.leaves[i]? = some x) :
    climb hash drop (t.path hash i) i (t.size - 1) x = some (0, t.root hash) := by
  have hsize : t.size ≤ 2 ^ t.size := Nat.lt_two_pow_self.le
  have hzero : ∃ j, climb hash drop (t.path hash i ++ []) (0 * 2 ^ t.size + i)
      (0 * 2 ^ t.size + (t.size - 1)) x =
        climb hash drop [] (0 * 2 ^ j) (0 * 2 ^ j) (t.root hash) :=
    climb_ragged hdrop ht [] hx hsize
  obtain ⟨j, hclimb⟩ := hzero
  simpa [climb] using hclimb

end NeuronWeb.AuditPath
