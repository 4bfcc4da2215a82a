/-
  Foundation/PrimeGroup: multiples in a group of prime order.

  A scalar counts modulo the order of the group, and below the order only 0 takes an element that
  is not 0 to 0.  A response `k + c * x` to a challenge `c`, reduced modulo the order, gives the
  commitment `k` back to who knows the multiple by `x` alone (`response_sub_challenge`).
-/
import Mathlib.GroupTheory.OrderOfElement

set_option autoImplicit false

namespace NeuronWeb.PrimeGroup

variable {G : Type} [AddCommGroup G] {n : Nat}

theorem nsmul_mod (hcard : Nat.card G = n) (k : Nat) (g : G) : (k % n) • g = k • g := by
  rw [← hcard, mod_natCard_nsmul]

theorem nsmul_ne_zero (hcard : Nat.card G = n) (hprime : n.Prime) {k : Nat} (hk : 0 < k ∧ k < n)
    {g : G} (hg : g ≠ 0) : k • g ≠ 0 := by
  intro hzero
  have horder : addOrderOf g ∣ n := hcard ▸ addOrderOf_dvd_natCard g
  have hmultiple : addOrderOf g ∣ k := addOrderOf_dvd_of_nsmul_eq_zero hzero
  rcases (Nat.dvd_prime hprime).mp horder with hone | hfull
  · exact hg (AddMonoid.addOrderOf_eq_one_iff.mp hone)
  · rw [hfull] at hmultiple
    exact absurd (Nat.le_of_dvd hk.1 hmultiple) (Nat.not_le.mpr hk.2)

theorem response_sub_challenge (hcard : Nat.card G = n) (k c x : Nat) (g : G) :
    ((k + c * x) % n) • g + -(c • x • g) = k • g := by
  calc ((k + c * x) % n) • g + -(c • x • g)
      = (k + c * x) • g + -(c • x • g) := by rw [nsmul_mod hcard]
    _ = k • g + (c * x) • g + -((c * x) • g) := by rw [add_nsmul, mul_nsmul']
    _ = k • g := add_neg_cancel_right _ _

end NeuronWeb.PrimeGroup
