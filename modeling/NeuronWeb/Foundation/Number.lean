import Mathlib.Data.Rat.Floor
import NeuronWeb.Foundation.Text

set_option autoImplicit false

/-!
# The number format

A `number` of the source is a double.  Counters (indices, epochs, shards,
timestamps, seat counts) are whole numbers far below `2 ^ 53` and are modelled by
`Nat` and `Int`.  Everything else a `number` is used for (payment amounts before
they are rounded, voting weights, lottery probabilities, byte totals read off the
wire) stays in an abstract type `F` with the operations the source applies to it.

No rounding law is assumed: a theorem stated over `[JsNumber F]` holds for
whatever the format computes, rounding, overflow and not-a-number included.  The
three laws of the class are about exact cases, where IEEE 754 leaves no choice.  The
exact rationals are one instance; they agree with doubles wherever every
intermediate value is representable.
-/

namespace NeuronWeb

/-- The operations the source applies to a `number`. -/
class JsNumber (F : Type) where
  /-- A whole-number literal, and `Number(n)` of a bigint. -/
  ofInt : Int → F
  /-- `BigInt(x)`, which throws unless `x` is a whole number. -/
  toBigInt : F → Option Int
  add : F → F → F
  sub : F → F → F
  mul : F → F → F
  div : F → F → F
  /-- `Math.pow`. -/
  pow : F → F → F
  /-- `Math.sqrt`. -/
  sqrt : F → F
  /-- `Math.round`. -/
  round : F → F
  /-- `Math.floor`. -/
  floor : F → F
  /-- `Math.ceil`. -/
  ceil : F → F
  /-- `Math.min`. -/
  min : F → F → F
  /-- `Math.max`. -/
  max : F → F → F
  /-- `x < y`. -/
  lt : F → F → Bool
  /-- `x <= y`. -/
  le : F → F → Bool
  /-- `Number.isFinite`. -/
  isFinite : F → Bool
  /-- `String(x)`. -/
  toText : F → String
  /-- A whole number below `2 ^ 53` is represented exactly. -/
  toBigInt_ofInt : ∀ n : Int, n.natAbs ≤ 2 ^ 53 → toBigInt (ofInt n) = some n
  /-- Rounding a whole number changes nothing. -/
  round_ofInt : ∀ n : Int, round (ofInt n) = ofInt n
  /-- `x < y` and `y <= x` exclude each other. -/
  le_eq_false_of_lt : ∀ x y : F, lt x y = true → le y x = false

namespace JsNumber

variable {F : Type} [JsNumber F]

/-- The whole number a `Math.round`, `Math.floor` or `Math.ceil` of a finite number is. -/
def toInt (x : F) : Int := (toBigInt x).getD 0

/-- `x === y` on numbers. -/
def same (x y : F) : Bool := le x y && le y x

theorem toInt_ofInt {n : Int} (h : n.natAbs ≤ 2 ^ 53) : toInt (ofInt n : F) = n := by
  simp [toInt, toBigInt_ofInt n h]

end JsNumber

/-- What IEEE 754 says of whole numbers and of the two roundings, not-a-number and the
infinities included: these three have no `BigInt`, and no comparison with them holds. -/
class LawfulJsNumber (F : Type) [JsNumber F] : Prop where
  zero_lt_ofInt : ∀ n : Int, 0 < n → JsNumber.lt (JsNumber.ofInt 0 : F) (JsNumber.ofInt n) = true
  floor_le : ∀ (x : F) (n : Int), JsNumber.toBigInt (JsNumber.floor x) = some n →
    JsNumber.lt x (JsNumber.ofInt n) = false
  floor_nonneg : ∀ (x : F) (n : Int), JsNumber.le x (JsNumber.ofInt 0) = false →
    JsNumber.toBigInt (JsNumber.floor x) = some n → 0 ≤ n
  round_nonneg : ∀ (x : F) (n : Int), JsNumber.le x (JsNumber.ofInt 0) = false →
    JsNumber.toBigInt (JsNumber.round x) = some n → 0 ≤ n

/-- What IEEE 754 says of `<`: a strict order that is total on what is equal to itself,
which NaN alone is not. -/
class OrderedJsNumber (F : Type) [JsNumber F] : Prop where
  lt_asymm : ∀ x y : F, JsNumber.lt x y = true → JsNumber.lt y x = false
  lt_split : ∀ x y z : F, JsNumber.same y y = true → JsNumber.lt x z = true →
    JsNumber.lt x y = true ∨ JsNumber.lt y z = true
  same_of_lt : ∀ x y : F, JsNumber.lt x y = true →
    JsNumber.same x x = true ∧ JsNumber.same y y = true
  same_of_finite : ∀ x : F, JsNumber.isFinite x = true → JsNumber.same x x = true

theorem JsNumber.lt_trans {F : Type} [JsNumber F] [OrderedJsNumber F] {x y z : F}
    (hxy : JsNumber.lt x y = true) (hyz : JsNumber.lt y z = true) : JsNumber.lt x z = true := by
  have hz := (OrderedJsNumber.same_of_lt y z hyz).2
  rcases OrderedJsNumber.lt_split x z y hz hxy with h | h
  · exact h
  · rw [OrderedJsNumber.lt_asymm y z hyz] at h
    cases h

/-- What IEEE 754 says of `Math.max`: it is not-a-number when one of the two is, and else the
larger of them.  A whole number is equal to itself. -/
class MaxJsNumber (F : Type) [JsNumber F] : Prop where
  same_ofInt : ∀ n : Int, JsNumber.same (JsNumber.ofInt n : F) (JsNumber.ofInt n) = true
  same_max : ∀ x y : F, JsNumber.same (JsNumber.max x y) (JsNumber.max x y) =
    (JsNumber.same x x && JsNumber.same y y)
  lt_max : ∀ x y z : F, JsNumber.same x x = true → JsNumber.same y y = true →
    JsNumber.lt z (JsNumber.max x y) = (JsNumber.lt z x || JsNumber.lt z y)

/-- What the language says of `BigInt(x)`: it takes whole numbers only, and leaves them as they
are. -/
class WholeJsNumber (F : Type) [JsNumber F] : Prop where
  same_of_toBigInt : ∀ (x : F) (n : Int), JsNumber.toBigInt x = some n → JsNumber.same x x = true
  pos_of_toBigInt : ∀ (x : F) (n : Int), JsNumber.toBigInt x = some n →
    (JsNumber.lt (JsNumber.ofInt 0) x = true ↔ 0 < n)

/-- What IEEE 754 says of signs: zero and `-1` are not positive, what is positive is above
`-1`, and two numbers that are not positive, not-a-number included, have no positive sum. -/
class SignedJsNumber (F : Type) [JsNumber F] : Prop where
  zero_not_pos : JsNumber.lt (JsNumber.ofInt 0 : F) (JsNumber.ofInt 0) = false
  neg_one_not_pos : JsNumber.lt (JsNumber.ofInt 0 : F) (JsNumber.ofInt (-1)) = false
  not_pos_of_not_lt : ∀ x : F, JsNumber.lt (JsNumber.ofInt (-1)) x = false →
    JsNumber.lt (JsNumber.ofInt 0) x = false
  add_not_pos : ∀ x y : F, JsNumber.lt (JsNumber.ofInt 0) x = false →
    JsNumber.lt (JsNumber.ofInt 0) y = false →
    JsNumber.lt (JsNumber.ofInt 0) (JsNumber.add x y) = false

/-- What IEEE 754 says of adding one: rounding is monotone, so the sum is not below. -/
class SuccJsNumber (F : Type) [JsNumber F] : Prop where
  add_one_not_lt : ∀ x : F, JsNumber.lt (JsNumber.add x (JsNumber.ofInt 1)) x = false

/-- What the language says of `String(x)`: there is no `|` in it, and it is the text of no other
number but zero of the other sign; not-a-number is not even equal to itself. -/
class TextJsNumber (F : Type) [JsNumber F] : Prop where
  bar_not_mem : ∀ x : F, '|' ∉ (JsNumber.toText x).toList
  same_of_toText : ∀ x y : F, JsNumber.toText x = JsNumber.toText y →
    JsNumber.same x y = true ∨ (JsNumber.same x x = false ∧ JsNumber.same y y = false)

/-! ## The exact rationals -/

/-- Whole square root, by counting up: enough for the small witnesses of this
development, and structurally recursive so that it evaluates. -/
def isqrtUpTo (n : Nat) : Nat → Nat
  | 0 => 0
  | k + 1 => if (k + 1) * (k + 1) ≤ n then k + 1 else isqrtUpTo n k

/-- Exact rational arithmetic.  `sqrt` is exact on perfect squares up to `64 ^ 2`
and `pow` on natural exponents; nothing is proved about either elsewhere. -/
instance : JsNumber Rat where
  ofInt n := n
  toBigInt x := if x.den = 1 then some x.num else none
  add x y := x + y
  sub x y := x - y
  mul x y := x * y
  div x y := x / y
  pow x y := x ^ y.num.toNat
  sqrt x := (isqrtUpTo x.num.toNat 64 : Int)
  round x := ((2 * x.num + x.den) / (2 * x.den) : Int)
  floor x := (x.num / x.den : Int)
  ceil x := (-((-x.num) / x.den) : Int)
  min x y := if x ≤ y then x else y
  max x y := if x ≤ y then y else x
  lt x y := decide (x < y)
  le x y := decide (x ≤ y)
  isFinite _ := true
  toText x := toString x.num ++ "/" ++ toString x.den
  toBigInt_ofInt n _ := by simp
  round_ofInt n := by
    have half : (2 * n + 1) / 2 = n := by omega
    simp [half]
  le_eq_false_of_lt x y h := by simpa using h

instance : LawfulJsNumber Rat where
  zero_lt_ofInt n h := by
    simp only [JsNumber.lt, JsNumber.ofInt, decide_eq_true_eq]
    exact_mod_cast h
  floor_le x n h := by
    have hn : x.num / x.den = n := by simpa [JsNumber.toBigInt, JsNumber.floor] using h
    have hle : ((x.num / x.den : Int) : Rat) ≤ x := by
      rw [← Rat.floor_def']
      exact Int.floor_le x
    simp only [JsNumber.lt, JsNumber.ofInt, decide_eq_false_iff_not, not_lt]
    rwa [hn] at hle
  floor_nonneg x n hpos h := by
    have hn : x.num / x.den = n := by simpa [JsNumber.toBigInt, JsNumber.floor] using h
    have hx : 0 < x := by simpa [JsNumber.le, JsNumber.ofInt] using hpos
    rw [← hn]
    exact Int.ediv_nonneg (Rat.num_nonneg.mpr hx.le) (by positivity)
  round_nonneg x n hpos h := by
    have hn : (2 * x.num + x.den) / (2 * x.den) = n := by
      simpa [JsNumber.toBigInt, JsNumber.round] using h
    have hx : 0 < x := by simpa [JsNumber.le, JsNumber.ofInt] using hpos
    have hnum : 0 ≤ x.num := Rat.num_nonneg.mpr hx.le
    rw [← hn]
    exact Int.ediv_nonneg (by omega) (by positivity)

instance : OrderedJsNumber Rat where
  lt_asymm x y h := by
    have hlt : x < y := by simpa [JsNumber.lt] using h
    simpa [JsNumber.lt] using le_of_lt hlt
  lt_split x y z _ h := by
    have hlt : x < z := by simpa [JsNumber.lt] using h
    simpa [JsNumber.lt] using (lt_or_ge x y).imp_right fun hyx => hyx.trans_lt hlt
  same_of_lt x y _ := by simp [JsNumber.same, JsNumber.le]
  same_of_finite x _ := by simp [JsNumber.same, JsNumber.le]

instance : MaxJsNumber Rat where
  same_ofInt n := by simp [JsNumber.same, JsNumber.le]
  same_max x y := by simp [JsNumber.same, JsNumber.le]
  lt_max x y z _ _ := by
    show decide (z < if x ≤ y then y else x) = (decide (z < x) || decide (z < y))
    split
    case isTrue h =>
      have : z < x → z < y := fun hzx => hzx.trans_le h
      simpa using this
    case isFalse h =>
      have : z < y → z < x := fun hzy => hzy.trans (lt_of_not_ge h)
      simpa using this

instance : WholeJsNumber Rat where
  same_of_toBigInt x _ _ := by simp [JsNumber.same, JsNumber.le]
  pos_of_toBigInt x n h := by
    simp only [JsNumber.toBigInt] at h
    split at h
    · cases h
      simp [JsNumber.lt, JsNumber.ofInt]
    · cases h

instance : SignedJsNumber Rat where
  zero_not_pos := by simp [JsNumber.lt]
  neg_one_not_pos := by simp [JsNumber.lt, JsNumber.ofInt]
  not_pos_of_not_lt x h := by
    have hle : x ≤ -1 := by simpa [JsNumber.lt, JsNumber.ofInt] using h
    have hx : x ≤ 0 := hle.trans (by norm_num)
    simpa [JsNumber.lt, JsNumber.ofInt] using hx
  add_not_pos x y hx hy := by
    have hx' : x ≤ 0 := by simpa [JsNumber.lt, JsNumber.ofInt] using hx
    have hy' : y ≤ 0 := by simpa [JsNumber.lt, JsNumber.ofInt] using hy
    simpa [JsNumber.lt, JsNumber.ofInt, JsNumber.add] using add_nonpos hx' hy'

instance : SuccJsNumber Rat where
  add_one_not_lt x := by
    simp [JsNumber.lt, JsNumber.add, JsNumber.ofInt]

instance : TextJsNumber Rat where
  bar_not_mem x hmem := by
    simp only [JsNumber.toText, String.toList_append, List.mem_append] at hmem
    rcases hmem with (hmem | hmem) | hmem
    · exact Text.not_mem_toString_int (by decide) (by decide) x.num hmem
    · exact absurd hmem (by decide)
    · exact Text.not_mem_repr (by decide) x.den hmem
  same_of_toText x y h := by
    have hchars := congrArg String.toList h
    simp only [JsNumber.toText, String.toList_append, List.append_assoc] at hchars
    obtain ⟨hnum, hden⟩ := Text.field_inj
      (Text.not_mem_toString_int (c := '/') (by decide) (by decide) x.num)
      (Text.not_mem_toString_int (c := '/') (by decide) (by decide) y.num) hchars
    have hxy : x = y := Rat.ext (Text.toString_int_injective (String.toList_injective hnum))
      (Text.repr_injective (String.toList_injective hden))
    subst hxy
    exact Or.inl (by simp [JsNumber.same, JsNumber.le])

end NeuronWeb
