import Mathlib.Data.List.Basic
import Mathlib.Data.Nat.Basic

set_option autoImplicit false

/-!
# Going round a ring

The numbers below `size` lie on a ring.  `dist a b` is how far it is from `a` up to `b`,
around the end where needed, and `way a b` is the same except that it goes all the way
round when the two are the same.  An interval test on a ring compares two ways from its
lower end.
-/

namespace NeuronWeb.Clockwise

variable {size a b c x : Nat}

/-- From `a` up to `b`, nothing when they are the same. -/
def dist (size a b : Nat) : Nat := if a ≤ b then b - a else size + b - a

/-- From `a` up to `b`, the whole ring when they are the same. -/
def way (size a b : Nat) : Nat := if a < b then b - a else size + b - a

@[simp] theorem way_self (size a : Nat) : way size a a = size := by
  rw [way, if_neg (lt_irrefl a), Nat.add_sub_cancel]

theorem way_pos (ha : a < size) : 0 < way size a b := by
  unfold way
  split <;> omega

theorem way_le (hb : b < size) : way size a b ≤ size := by
  unfold way
  split <;> omega

section

variable (ha : a < size)
include ha

theorem dist_inj (hb : b < size) (hc : c < size) (h : dist size a b = dist size a c) : b = c := by
  unfold dist at h
  split_ifs at h <;> omega

theorem way_add (hb : b < size) (hc : c < size) (h : way size a b < way size a c) :
    way size a c = way size a b + way size b c := by
  unfold way at h ⊢
  split_ifs at h ⊢ <;> omega

theorem way_of_add_le (hb : b < size) (h : way size a b + way size b c ≤ size) :
    way size a c = way size a b + way size b c := by
  unfold way at h ⊢
  split_ifs at h ⊢ <;> omega

theorem way_le_way_iff (hb : b < size) (hx : x < size) :
    way size a x ≤ way size a b ↔
      a = b ∨ (a < b ∧ a < x ∧ x ≤ b) ∨ (b < a ∧ (a < x ∨ x ≤ b)) := by
  unfold way
  split_ifs <;> omega

theorem way_lt_way_iff (hb : b < size) (hx : x < size) :
    way size a x < way size a b ↔
      (a = b ∧ x ≠ a) ∨ (a < b ∧ a < x ∧ x < b) ∨ (b < a ∧ (a < x ∨ x < b)) := by
  unfold way
  split_ifs <;> omega

theorem add_mod_of_le {j : Nat} (hjs : j ≤ size) :
    (a + j) % size = if a + j < size then a + j else a + j - size := by
  split
  case isTrue hlt => exact Nat.mod_eq_of_lt hlt
  case isFalse hge => rw [Nat.mod_eq_sub_mod (by omega), Nat.mod_eq_of_lt (by omega)]

theorem way_eq_add_dist {j : Nat} (hb : b < size) (hj : 0 < j)
    (hjs : j ≤ size) (h : j ≤ way size a b) : way size a b = j + dist size ((a + j) % size) b := by
  rw [add_mod_of_le ha hjs]
  unfold way at h ⊢
  unfold dist
  split_ifs at h ⊢ <;> omega

theorem dist_of_way_lt {j : Nat} (hb : b < size) (hjs : j ≤ size)
    (h : way size a b < j) : dist size ((a + j) % size) b = size - j + way size a b := by
  rw [add_mod_of_le ha hjs]
  unfold way at h ⊢
  unfold dist
  split_ifs at h ⊢ <;> omega

end

/-- The first of some points, seen from `x`. -/
def IsFirst (size : Nat) (points : List Nat) (x f : Nat) : Prop :=
  f ∈ points ∧ ∀ m ∈ points, dist size x f ≤ dist size x m

variable {points : List Nat} {f g n t : Nat}

section

variable (hpoints : ∀ m ∈ points, m < size)
include hpoints

theorem IsFirst.unique (hx : x < size)
    (hf : IsFirst size points x f) (hg : IsFirst size points x g) : f = g :=
  dist_inj hx (hpoints f hf.1) (hpoints g hg.1)
    (Nat.le_antisymm (hf.2 g hg.1) (hg.2 f hf.1))

/-- The first point at least `j` ahead of a point. -/
theorem le_way_of_isFirst {j : Nat} (hn : n ∈ points)
    (hj : 0 < j) (hjs : j ≤ size) (hf : IsFirst size points ((n + j) % size) f) :
    j ≤ way size n f ∧ ∀ m ∈ points, j ≤ way size n m → way size n f ≤ way size n m := by
  have hself := way_eq_add_dist (hpoints n hn) (hpoints n hn) hj hjs (by rw [way_self]; exact hjs)
  have hle : j ≤ way size n f := by
    by_contra hlt
    have hfar := dist_of_way_lt (hpoints n hn) (hpoints f hf.1) hjs (not_le.mp hlt)
    have hpos := way_pos (b := f) (hpoints n hn)
    have hmin := hf.2 n hn
    rw [way_self] at hself
    omega
  refine ⟨hle, fun m hm hjm => ?_⟩
  rw [way_eq_add_dist (hpoints n hn) (hpoints f hf.1) hj hjs hle,
    way_eq_add_dist (hpoints n hn) (hpoints m hm) hj hjs hjm]
  exact Nat.add_le_add_left (hf.2 m hm) j

/-- Where no point comes before `t`, the next point is the first one seen from `t`. -/
theorem isFirst_of_way_le (hn : n < size) (ht : t < size)
    (hs : f ∈ points) (hnext : ∀ m ∈ points, way size n f ≤ way size n m)
    (hstop : way size n t ≤ way size n f) : IsFirst size points t f := by
  refine ⟨hs, fun m hm => ?_⟩
  have hf := hpoints f hs
  have hm' := hpoints m hm
  have hle := hnext m hm
  unfold way at hle hstop
  unfold dist
  split_ifs at hle hstop ⊢ <;> omega

end

end NeuronWeb.Clockwise
