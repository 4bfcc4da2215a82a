/-
  Foundation/Reading: what the numbers of the source stand for.

  A reading gives each number that is not NaN the extended real it denotes.  Its laws are
  those of IEEE 754 that bounds on sums of counters need: comparisons, `min` and `max` are
  exact, whole numbers up to `2 ^ 53` are exact, and rounding is monotone, so that a sum
  below such a whole number is not rounded above it.
-/
import NeuronWeb.Foundation.Number
import Mathlib.Data.EReal.Operations

set_option autoImplicit false

namespace NeuronWeb

variable {F : Type} [JsNumber F]

structure Reading (F : Type) [JsNumber F] where
  /-- The number is not NaN. -/
  real : F → Prop
  /-- What the number stands for. -/
  value : F → EReal
  lt_iff : ∀ {x y : F}, real x → real y → (JsNumber.lt x y = true ↔ value x < value y)
  le_iff : ∀ {x y : F}, real x → real y → (JsNumber.le x y = true ↔ value x ≤ value y)
  real_ofInt : ∀ n : Int, real (JsNumber.ofInt n)
  value_ofInt : ∀ n : Int, n.natAbs ≤ 2 ^ 53 → value (JsNumber.ofInt n) = ((n : ℝ) : EReal)
  ofInt_mono : ∀ {n m : Int}, n ≤ m → value (JsNumber.ofInt n) ≤ value (JsNumber.ofInt m)
  /-- Only the difference of two infinities is NaN. -/
  real_sub : ∀ {x y : F}, real x → real y → 0 ≤ value y → value y < ⊤ → real (JsNumber.sub x y)
  max_spec : ∀ {x y : F}, real x → real y →
    real (JsNumber.max x y) ∧ value (JsNumber.max x y) = max (value x) (value y)
  min_spec : ∀ {x y : F}, real x → real y →
    real (JsNumber.min x y) ∧ value (JsNumber.min x y) = min (value x) (value y)
  add_spec : ∀ {x y : F}, real x → real y → 0 ≤ value x → 0 ≤ value y →
    real (JsNumber.add x y) ∧ 0 ≤ value (JsNumber.add x y) ∧
      ∀ n : Nat, n ≤ 2 ^ 53 → value x + value y ≤ ((n : ℝ) : EReal) →
        value (JsNumber.add x y) ≤ ((n : ℝ) : EReal)

namespace Reading

variable (R : Reading F)

/-- What a byte counter counts: its value, and nothing when that is negative. -/
noncomputable def bytes (x : F) : ENNReal := (R.value x).toENNReal

@[simp] theorem value_zero : R.value (JsNumber.ofInt 0) = 0 := by
  rw [R.value_ofInt 0 (by decide)]
  simp

@[simp] theorem bytes_zero : R.bytes (JsNumber.ofInt 0) = 0 := by simp [bytes]

theorem bytes_mono {x y : F} (h : R.value x ≤ R.value y) : R.bytes x ≤ R.bytes y :=
  EReal.toENNReal_le_toENNReal h

theorem le_of_lt_eq_false {x y : F} (hx : R.real x) (hy : R.real y)
    (h : JsNumber.lt x y = false) : R.value y ≤ R.value x := by
  rw [← not_lt, ← R.lt_iff hx hy, h]
  exact Bool.false_ne_true

theorem lt_of_le_eq_false {x y : F} (hx : R.real x) (hy : R.real y)
    (h : JsNumber.le x y = false) : R.value y < R.value x := by
  rw [← not_le, ← R.le_iff hx hy, h]
  exact Bool.false_ne_true

/-- A bigint whose number is positive and below `2 ^ 53` is exactly that number. -/
theorem bytes_ofInt {n : Int} {bound : Nat} (hpos : 0 < R.value (JsNumber.ofInt n))
    (hle : R.value (JsNumber.ofInt n) ≤ ((bound : ℝ) : EReal)) (hbound : bound < 2 ^ 53) :
    0 < n ∧ R.bytes (JsNumber.ofInt n) = (n.toNat : ENNReal) := by
  have hn : 0 < n := by
    by_contra hneg
    have hmono := R.ofInt_mono (not_lt.mp hneg)
    rw [R.value_zero] at hmono
    exact absurd hpos (not_lt.mpr hmono)
  have hsmall : n.natAbs ≤ 2 ^ 53 := by
    by_contra hbig
    have hmono := R.ofInt_mono (show (2 ^ 53 : Int) ≤ n by omega)
    rw [R.value_ofInt (2 ^ 53) (by decide)] at hmono
    have hreal := hmono.trans hle
    rw [EReal.coe_le_coe_iff] at hreal
    have hnat : ((2 ^ 53 : Nat) : ℝ) ≤ (bound : ℝ) := by exact_mod_cast hreal
    exact absurd (Nat.cast_le.mp hnat) (by omega)
  refine ⟨hn, ?_⟩
  rw [bytes, R.value_ofInt n hsmall, EReal.real_coe_toENNReal]
  have hcast : (n : ℝ) = ((n.toNat : Nat) : ℝ) := by
    rw [← Int.cast_natCast, Int.toNat_of_nonneg hn.le]
  rw [hcast, ENNReal.ofReal_natCast]

end Reading

/-- The exact rationals stand for themselves. -/
noncomputable def ratReading : Reading Rat where
  real _ := True
  value x := ((x : ℝ) : EReal)
  lt_iff _ _ := by simp [JsNumber.lt]
  le_iff _ _ := by simp [JsNumber.le]
  real_ofInt _ := trivial
  value_ofInt n _ := by simp [JsNumber.ofInt]
  ofInt_mono h := by simpa [JsNumber.ofInt] using h
  real_sub _ _ _ _ := trivial
  max_spec {x y} _ _ := by
    refine ⟨trivial, ?_⟩
    simp only [JsNumber.max]
    split
    · rename_i h
      rw [max_eq_right]
      simpa using h
    · rename_i h
      rw [max_eq_left]
      simpa using (not_le.mp h).le
  min_spec {x y} _ _ := by
    refine ⟨trivial, ?_⟩
    simp only [JsNumber.min]
    split
    · rename_i h
      rw [min_eq_left]
      simpa using h
    · rename_i h
      rw [min_eq_right]
      simpa using (not_le.mp h).le
  add_spec {x y} _ _ hx hy := by
    have hsum : (((JsNumber.add x y : Rat) : ℝ) : EReal) =
        ((x : ℝ) : EReal) + ((y : ℝ) : EReal) := by simp [JsNumber.add]
    refine ⟨trivial, ?_, fun n _ h => ?_⟩
    · rw [hsum]
      exact add_nonneg hx hy
    · rw [hsum]
      exact h

end NeuronWeb
