import Mathlib.Data.Int.Log
import Mathlib.Data.Rat.Floor
import Mathlib.Tactic.Positivity

set_option autoImplicit false

/-!
# Rounding to a number of binary digits

The result of an arithmetic operation on binary floating-point numbers is the exact result
rounded to the nearest number with `p` significant digits, the one with an even last digit when
two are equally near. Here the exact results are rationals and the exponent is not bounded, so
that overflow and underflow are left to whoever bounds the operands.
-/

namespace NeuronWeb.Rounding

/-- The nearest whole number, the even one of two. -/
def halfEven (x : ℚ) : ℤ :=
  if x - ⌊x⌋ < 1 / 2 then ⌊x⌋
  else if 1 / 2 < x - ⌊x⌋ then ⌊x⌋ + 1
  else if ⌊x⌋ % 2 = 0 then ⌊x⌋
  else ⌊x⌋ + 1

/-- The value of the last of the `p` digits that a number of the size of `x` has. -/
def ulp (p : ℕ) (x : ℚ) : ℚ := 2 ^ (Int.log 2 |x| + 1 - p)

/-- The number with `p` digits that is nearest to `x`. -/
def nearest (p : ℕ) (x : ℚ) : ℚ := halfEven (x / ulp p x) * ulp p x

/-! ## Whole numbers -/

theorem halfEven_eq_or (x : ℚ) : halfEven x = ⌊x⌋ ∨ halfEven x = ⌊x⌋ + 1 := by
  unfold halfEven
  split
  · exact Or.inl rfl
  split
  · exact Or.inr rfl
  split
  · exact Or.inl rfl
  · exact Or.inr rfl

theorem abs_halfEven_sub_le (x : ℚ) : |(halfEven x : ℚ) - x| ≤ 1 / 2 := by
  have hfloor := Int.floor_le x
  have hlt := Int.lt_floor_add_one x
  rw [abs_le]
  unfold halfEven
  split
  · constructor <;> linarith
  split
  · push_cast
    constructor <;> linarith
  split
  · constructor <;> linarith
  · push_cast
    constructor <;> linarith

theorem le_halfEven {n : ℤ} {x : ℚ} (h : (n : ℚ) ≤ x) : n ≤ halfEven x := by
  have hfloor : n ≤ ⌊x⌋ := Int.le_floor.mpr h
  rcases halfEven_eq_or x with heq | heq <;> omega

/-- No whole number is passed over from below. -/
theorem halfEven_le {n : ℤ} {x : ℚ} (h : x ≤ n) : halfEven x ≤ n := by
  have hceil : ⌈x⌉ ≤ n := Int.ceil_le.mpr h
  rcases halfEven_eq_or x with heq | heq
  · have hle : ⌊x⌋ ≤ ⌈x⌉ := Int.floor_le_ceil x
    omega
  · by_contra hgt
    have hfloor : ⌊x⌋ = n := by
      have hle : ⌊x⌋ ≤ n := Int.cast_le.mp ((Int.floor_le x).trans h)
      omega
    have hx : x = n := le_antisymm h (hfloor ▸ Int.floor_le x)
    have hself : halfEven x = n := by
      rw [halfEven, hx, Int.floor_intCast, sub_self, if_pos (by norm_num)]
    omega

/-! ## Digits -/

section Digits

variable {p : ℕ} {x : ℚ}

theorem ulp_pos (p : ℕ) (x : ℚ) : 0 < ulp p x := zpow_pos two_pos _

theorem ulp_mul_le (hp : 1 ≤ p) (hx : 0 < x) : ulp p x * 2 ^ (p - 1) ≤ x := by
  have hlog : ((2 : ℕ) : ℚ) ^ Int.log 2 x ≤ x := Int.zpow_log_le_self one_lt_two hx
  have hdigits : ulp p x * 2 ^ (p - 1) = 2 ^ Int.log 2 x := by
    rw [ulp, abs_of_pos hx, ← zpow_natCast, ← zpow_add₀ two_ne_zero]
    congr 1
    omega
  rw [hdigits]
  exact_mod_cast hlog

theorem abs_nearest_sub_le (p : ℕ) (x : ℚ) : |nearest p x - x| ≤ ulp p x / 2 := by
  have hulp := ulp_pos p x
  have hscaled : nearest p x - x = ((halfEven (x / ulp p x) : ℚ) - x / ulp p x) * ulp p x := by
    rw [nearest, sub_mul, div_mul_cancel₀ x hulp.ne']
  rw [hscaled, abs_mul, abs_of_pos hulp]
  calc |(halfEven (x / ulp p x) : ℚ) - x / ulp p x| * ulp p x
      ≤ 1 / 2 * ulp p x := mul_le_mul_of_nonneg_right (abs_halfEven_sub_le _) hulp.le
    _ = ulp p x / 2 := by ring

section

variable (hp : 1 ≤ p)
include hp

/-- Rounding does not pass over a power of two from above. -/
theorem zpow_le_nearest {k : ℤ} (h : (2 : ℚ) ^ k ≤ x) : (2 : ℚ) ^ k ≤ nearest p x := by
  have hx : 0 < x := (zpow_pos two_pos k).trans_le h
  have hulp := ulp_pos p x
  have hk : k ≤ Int.log 2 x :=
    (Int.zpow_le_iff_le_log one_lt_two hx).mp (by exact_mod_cast h)
  have hdigits : ((2 ^ (p - 1) : ℤ) : ℚ) ≤ x / ulp p x := by
    rw [le_div_iff₀ hulp]
    push_cast
    linarith [ulp_mul_le hp hx]
  have hround : ((2 ^ (p - 1) : ℤ) : ℚ) ≤ halfEven (x / ulp p x) :=
    Int.cast_le.mpr (le_halfEven hdigits)
  calc (2 : ℚ) ^ k ≤ 2 ^ Int.log 2 x := zpow_le_zpow_right₀ one_le_two hk
    _ = 2 ^ (p - 1) * ulp p x := by
        rw [ulp, abs_of_pos hx, ← zpow_natCast, ← zpow_add₀ two_ne_zero]
        congr 1
        omega
    _ ≤ nearest p x := by
        rw [nearest]
        push_cast at hround
        exact mul_le_mul_of_nonneg_right hround hulp.le

theorem exists_ulp_mul (h : |x| < 2 ^ p) : ∃ m : ℕ, ulp p x * m = 1 := by
  have hlog : Int.log 2 |x| < p := by
    by_cases hx : x = 0
    · rw [hx, abs_zero, Int.log_zero_right]
      omega
    · refine (Int.lt_zpow_iff_log_lt one_lt_two (abs_pos.mpr hx)).mp ?_
      exact_mod_cast h
  refine ⟨2 ^ (p - 1 - Int.log 2 |x|).toNat, ?_⟩
  push_cast
  rw [ulp, ← zpow_natCast, ← zpow_add₀ two_ne_zero, Int.toNat_of_nonneg (by omega)]
  have hzero : Int.log 2 |x| + 1 - p + (p - 1 - Int.log 2 |x|) = 0 := by ring
  rw [hzero, zpow_zero]

/-- Rounding does not pass over a whole number from above. -/
theorem intCast_le_nearest (h : |x| < 2 ^ p) {n : ℤ} (hn : (n : ℚ) ≤ x) :
    (n : ℚ) ≤ nearest p x := by
  obtain ⟨m, hm⟩ := exists_ulp_mul hp h
  have hulp := ulp_pos p x
  have hscaled : ((n * m : ℤ) : ℚ) ≤ x / ulp p x := by
    rw [le_div_iff₀ hulp]
    push_cast
    calc (n : ℚ) * m * ulp p x = n * (ulp p x * m) := by ring
      _ = n := by rw [hm, mul_one]
      _ ≤ x := hn
  calc (n : ℚ) = (n * m : ℤ) * ulp p x := by
        push_cast
        rw [mul_assoc, mul_comm (m : ℚ), hm, mul_one]
    _ ≤ nearest p x :=
        mul_le_mul_of_nonneg_right (Int.cast_le.mpr (le_halfEven hscaled)) hulp.le

/-- Rounding does not pass over a whole number from below. -/
theorem nearest_le_intCast (h : |x| < 2 ^ p) {n : ℤ} (hn : x ≤ n) : nearest p x ≤ n := by
  obtain ⟨m, hm⟩ := exists_ulp_mul hp h
  have hulp := ulp_pos p x
  have hscaled : x / ulp p x ≤ (n * m : ℤ) := by
    rw [div_le_iff₀ hulp]
    push_cast
    calc x ≤ n := hn
      _ = n * (ulp p x * m) := by rw [hm, mul_one]
      _ = (n : ℚ) * m * ulp p x := by ring
  calc nearest p x ≤ (n * m : ℤ) * ulp p x :=
        mul_le_mul_of_nonneg_right (Int.cast_le.mpr (halfEven_le hscaled)) hulp.le
    _ = n := by
        push_cast
        rw [mul_assoc, mul_comm (m : ℚ), hm, mul_one]

theorem nearest_intCast {n : ℤ} (h : |n| < 2 ^ p) : nearest p n = n := by
  have hcast : |(n : ℚ)| < 2 ^ p := by exact_mod_cast h
  exact le_antisymm (nearest_le_intCast hp hcast (le_refl _))
    (intCast_le_nearest hp hcast (le_refl _))

theorem nearest_natCast {n : ℕ} (h : n < 2 ^ p) : nearest p n = n := by
  have habs : |(n : ℤ)| < 2 ^ p := by
    rw [abs_of_nonneg (Int.natCast_nonneg n)]
    exact_mod_cast h
  exact_mod_cast nearest_intCast hp habs

theorem le_nearest_natCast {n : ℕ} (h : 2 ^ p ≤ n) : (2 : ℚ) ^ p ≤ nearest p n := by
  have hpow : (2 : ℚ) ^ (p : ℤ) ≤ n := by
    rw [zpow_natCast]
    exact_mod_cast h
  simpa using zpow_le_nearest hp hpow

/-- The ceiling of a quotient of whole numbers survives its rounding. -/
theorem ceil_nearest_div {a b : ℕ} (ha : a < 2 ^ p) (hb : 0 < b) :
    ⌈nearest p ((a : ℚ) / b)⌉ = ⌈(a : ℚ) / b⌉ := by
  by_cases hzero : a = 0
  · have hround : nearest p 0 = 0 := by
      simpa using nearest_natCast hp (Nat.two_pow_pos p)
    rw [hzero, Nat.cast_zero, zero_div, hround]
  have hb' : (0 : ℚ) < b := by exact_mod_cast hb
  have hx : (0 : ℚ) < a / b := div_pos (by exact_mod_cast Nat.pos_of_ne_zero hzero) hb'
  have hone : (1 : ℚ) ≤ b := by exact_mod_cast hb
  have hsmall : |(a : ℚ) / b| < 2 ^ p := by
    rw [abs_of_pos hx]
    calc (a : ℚ) / b ≤ a := div_le_self (Nat.cast_nonneg a) hone
      _ < 2 ^ p := by exact_mod_cast ha
  refine (Int.ceil_eq_iff).mpr ⟨?_, nearest_le_intCast hp hsmall (Int.le_ceil _)⟩
  -- what is above the whole number is above it by `1 / b`, and half the last digit is less
  have habove : ((⌈(a : ℚ) / b⌉ : ℚ) - 1) + 1 / b ≤ a / b := by
    have hlt : (⌈(a : ℚ) / b⌉ : ℚ) - 1 < a / b := by
      linarith [Int.ceil_lt_add_one ((a : ℚ) / b)]
    rw [lt_div_iff₀ hb'] at hlt
    have hlt' : (⌈(a : ℚ) / b⌉ - 1) * (b : ℤ) < a := by exact_mod_cast hlt
    have hle : (⌈(a : ℚ) / b⌉ - 1) * (b : ℤ) + 1 ≤ a := hlt'
    have hle' : ((⌈(a : ℚ) / b⌉ : ℚ) - 1) * b + 1 ≤ a := by exact_mod_cast hle
    rw [le_div_iff₀ hb', add_mul, one_div, inv_mul_cancel₀ hb'.ne']
    exact hle'
  have hulp : ulp p ((a : ℚ) / b) / 2 < 1 / b := by
    have hfirst := ulp_mul_le hp hx
    have hpow : (2 : ℚ) ^ p = 2 ^ (p - 1) * 2 := by
      rw [← pow_succ, Nat.sub_add_cancel hp]
    have ha' : (a : ℚ) < 2 ^ p := by exact_mod_cast ha
    have hscaled : ulp p ((a : ℚ) / b) / 2 * 2 ^ p * b < 1 * 2 ^ p := by
      calc ulp p ((a : ℚ) / b) / 2 * 2 ^ p * b
          = ulp p ((a : ℚ) / b) * 2 ^ (p - 1) * b := by rw [hpow]; ring
        _ ≤ a / b * b := mul_le_mul_of_nonneg_right hfirst hb'.le
        _ = a := div_mul_cancel₀ _ hb'.ne'
        _ < 1 * 2 ^ p := by rw [one_mul]; exact ha'
    rw [lt_div_iff₀ hb']
    have hpos : (0 : ℚ) < 2 ^ p := by positivity
    refine lt_of_mul_lt_mul_right ?_ hpos.le
    calc ulp p ((a : ℚ) / b) / 2 * b * 2 ^ p = ulp p ((a : ℚ) / b) / 2 * 2 ^ p * b := by ring
      _ < 1 * 2 ^ p := hscaled
  have hmoved := (abs_le.mp (abs_nearest_sub_le p ((a : ℚ) / b))).1
  linarith

end

end Digits

end NeuronWeb.Rounding
