/-
  Foundation/LogField: fields of binary words that are multiplied by tables of logarithms.

  Words of some length are added by exclusive or.  When a linear map takes the word 1 through
  all words but 0, a product of two words can be read off the exponents at which the map reaches
  them.  The words then are a field (`LogTable.Word`), and what holds in fields holds of the
  tables.
-/
import Mathlib.Tactic.FieldSimp
import Mathlib.Tactic.Ring

set_option autoImplicit false

namespace NeuronWeb

/-- A linear map of words that takes 1 through all words but 0, and the logarithms: the
exponents at which it does. -/
structure LogTable where
  bits : ℕ
  gen : ℕ → ℕ
  order : ℕ
  log : ℕ → ℕ
  bits_pos : 0 < bits
  order_pos : 0 < order
  gen_lt : ∀ a < 2 ^ bits, gen a < 2 ^ bits
  gen_xor : ∀ a b, gen (a ^^^ b) = gen a ^^^ gen b
  gen_order : gen^[order] 1 = 1
  log_le : ∀ a < 2 ^ bits, log a ≤ order
  gen_log : ∀ a < 2 ^ bits, a ≠ 0 → gen^[log a] 1 = a

namespace LogTable

/-- A word. -/
def Word (t : LogTable) : Type := { n : ℕ // n < 2 ^ t.bits }

variable {t : LogTable}

instance : DecidableEq t.Word := inferInstanceAs (DecidableEq { n : ℕ // n < 2 ^ t.bits })

/-! ## Addition -/

instance : Zero t.Word := ⟨0, Nat.two_pow_pos t.bits⟩

instance : Add t.Word := ⟨fun a b => ⟨a.val ^^^ b.val, Nat.xor_lt_two_pow a.property b.property⟩⟩

instance : Neg t.Word := ⟨id⟩

instance : AddCommGroup t.Word where
  add_assoc a b c := Subtype.ext (Nat.xor_assoc a.val b.val c.val)
  zero_add a := Subtype.ext (Nat.zero_xor a.val)
  add_zero a := Subtype.ext (Nat.xor_zero a.val)
  add_comm a b := Subtype.ext (Nat.xor_comm a.val b.val)
  neg_add_cancel a := Subtype.ext (Nat.xor_self a.val)
  nsmul := nsmulRec
  zsmul := zsmulRec

theorem Word.sub_eq_add (a b : t.Word) : a - b = a + b := sub_eq_add_neg a b

theorem Word.val_ne_zero {a : t.Word} (h : a ≠ 0) : a.val ≠ 0 := fun heq => h (Subtype.ext heq)

/-! ## Powers of the map -/

/-- One application of the map. -/
def shift : t.Word →+ t.Word where
  toFun a := ⟨t.gen a.val, t.gen_lt a.val a.property⟩
  map_zero' := by
    have hxor := t.gen_xor 0 0
    rw [Nat.xor_self, Nat.xor_self] at hxor
    exact Subtype.ext hxor
  map_add' a b := Subtype.ext (t.gen_xor a.val b.val)

/-- The word that the map reaches from 1 after `n` steps. -/
def power (n : ℕ) : t.Word := shift^[n] ⟨1, Nat.one_lt_two_pow t.bits_pos.ne'⟩

theorem val_power (n : ℕ) : (power n : t.Word).val = t.gen^[n] 1 := by
  induction n with
  | zero => rfl
  | succ n ih =>
    have hstep : (power (n + 1) : t.Word) = shift (power n) := Function.iterate_succ_apply' _ _ _
    rw [Function.iterate_succ_apply', ← ih, hstep]
    rfl

theorem power_add (m n : ℕ) : (power (m + n) : t.Word) = shift^[m] (power n) :=
  Function.iterate_add_apply shift m n _

theorem power_order : (power t.order : t.Word) = power 0 :=
  Subtype.ext ((val_power t.order).trans t.gen_order)

theorem power_log {a : t.Word} (h : a ≠ 0) : power (t.log a.val) = a :=
  Subtype.ext ((val_power _).trans (t.gen_log a.val a.property (Word.val_ne_zero h)))

theorem power_order_mul (k : ℕ) : (power (t.order * k) : t.Word) = power 0 := by
  induction k with
  | zero => rfl
  | succ k ih => rw [Nat.mul_succ, power_add, power_order, ← power_add, Nat.add_zero, ih]

theorem power_ne_zero (n : ℕ) : (power n : t.Word) ≠ 0 := by
  intro hzero
  have hle : n ≤ t.order * n := Nat.le_mul_of_pos_left n t.order_pos
  have hlater : (power (t.order * n) : t.Word) = 0 := by
    rw [← Nat.sub_add_cancel hle, power_add, hzero]
    exact iterate_map_zero shift _
  rw [power_order_mul] at hlater
  exact Nat.one_ne_zero (congrArg Subtype.val hlater)

theorem eq_zero_or_power (a : t.Word) : a = 0 ∨ ∃ n, a = power n := by
  by_cases h : a = 0
  · exact .inl h
  · exact .inr ⟨_, (power_log h).symm⟩

/-! ## Multiplication -/

instance : Mul t.Word where
  mul a b := if a = 0 ∨ b = 0 then 0 else power (t.log a.val + t.log b.val)

theorem Word.mul_of_ne {a b : t.Word} (ha : a ≠ 0) (hb : b ≠ 0) :
    a * b = power (t.log a.val + t.log b.val) := if_neg (not_or.mpr ⟨ha, hb⟩)

theorem Word.zero_mul' (a : t.Word) : 0 * a = 0 := if_pos (.inl rfl)

theorem Word.mul_zero' (a : t.Word) : a * 0 = 0 := if_pos (.inr rfl)

theorem power_mul_power (m n : ℕ) : (power m * power n : t.Word) = power (m + n) := by
  rw [Word.mul_of_ne (power_ne_zero m) (power_ne_zero n), power_add, power_log (power_ne_zero n),
    ← power_add, Nat.add_comm, power_add, power_log (power_ne_zero m), ← power_add, Nat.add_comm]

theorem power_mul (n : ℕ) (a : t.Word) : power n * a = shift^[n] a := by
  rcases eq_zero_or_power a with rfl | ⟨m, rfl⟩
  · rw [Word.mul_zero', iterate_map_zero]
  · rw [power_mul_power, power_add]

instance : One t.Word := ⟨power 0⟩

instance : CommRing t.Word where
  mul_assoc a b c := by
    rcases eq_zero_or_power a with rfl | ⟨i, rfl⟩
    · rw [Word.zero_mul', Word.zero_mul', Word.zero_mul']
    rcases eq_zero_or_power b with rfl | ⟨j, rfl⟩
    · rw [Word.zero_mul', Word.mul_zero', Word.zero_mul']
    rcases eq_zero_or_power c with rfl | ⟨k, rfl⟩
    · rw [Word.mul_zero', Word.mul_zero', Word.mul_zero']
    rw [power_mul_power, power_mul_power, power_mul_power, power_mul_power, Nat.add_assoc]
  one_mul a := power_mul 0 a
  mul_one a := by
    rcases eq_zero_or_power a with rfl | ⟨i, rfl⟩
    · exact Word.zero_mul' _
    · exact power_mul_power i 0
  left_distrib a b c := by
    rcases eq_zero_or_power a with rfl | ⟨i, rfl⟩
    · rw [Word.zero_mul', Word.zero_mul', Word.zero_mul', add_zero]
    · rw [power_mul, power_mul, power_mul, iterate_map_add]
  right_distrib a b c := by
    rcases eq_zero_or_power c with rfl | ⟨i, rfl⟩
    · rw [Word.mul_zero', Word.mul_zero', Word.mul_zero', add_zero]
    · have hcomm : ∀ x : t.Word, x * power i = power i * x := by
        intro x
        rcases eq_zero_or_power x with rfl | ⟨j, rfl⟩
        · rw [Word.zero_mul', Word.mul_zero']
        · rw [power_mul_power, power_mul_power, Nat.add_comm]
      rw [hcomm, hcomm, hcomm, power_mul, power_mul, power_mul, iterate_map_add]
  zero_mul := Word.zero_mul'
  mul_zero := Word.mul_zero'
  mul_comm a b := by
    rcases eq_zero_or_power a with rfl | ⟨i, rfl⟩
    · rw [Word.zero_mul', Word.mul_zero']
    rcases eq_zero_or_power b with rfl | ⟨j, rfl⟩
    · rw [Word.zero_mul', Word.mul_zero']
    rw [power_mul_power, power_mul_power, Nat.add_comm]
  neg_add_cancel := neg_add_cancel
  zsmul := zsmulRec
  nsmul := nsmulRec

noncomputable instance : Field t.Word where
  inv a := if a = 0 then 0 else power (t.order - t.log a.val)
  exists_pair_ne := ⟨0, power 0, (power_ne_zero 0).symm⟩
  mul_inv_cancel a ha := by
    show a * (if a = 0 then 0 else power (t.order - t.log a.val)) = power 0
    rw [if_neg ha]
    nth_rewrite 1 [← power_log ha]
    rw [power_mul_power, Nat.add_sub_cancel' (t.log_le a.val a.property), power_order]
  inv_zero := if_pos rfl
  nnqsmul := _
  nnqsmul_def := fun _ _ => rfl
  qsmul := _
  qsmul_def := fun _ _ => rfl

theorem Word.div_of_ne {a b : t.Word} (ha : a ≠ 0) (hb : b ≠ 0) :
    a / b = power (t.log a.val + t.order - t.log b.val) := by
  have hle := t.log_le b.val b.property
  rw [div_eq_iff hb]
  nth_rewrite 2 [← power_log hb]
  rw [power_mul_power, Nat.sub_add_cancel (Nat.le_add_left_of_le hle), power_add, power_order,
    ← power_add, Nat.add_zero, power_log ha]

end LogTable

/-! ## Lines -/

theorem line_at_zero {K : Type} [Field K] (s r : K) {x y : K} (h : x ≠ y) :
    (s + r * x) * (y / (y - x)) + (s + r * y) * (x / (x - y)) = s := by
  have hxy : x - y ≠ 0 := sub_ne_zero.mpr h
  have hyx : y - x ≠ 0 := sub_ne_zero.mpr h.symm
  field_simp
  ring

theorem LogTable.Word.line_at_zero {t : LogTable} (s r : t.Word) {x y : t.Word} (h : x ≠ y) :
    (s + r * x) * (y / (x + y)) + (s + r * y) * (x / (x + y)) = s := by
  have hline := NeuronWeb.line_at_zero s r h
  rwa [sub_eq_add, sub_eq_add, add_comm y x] at hline

end NeuronWeb
