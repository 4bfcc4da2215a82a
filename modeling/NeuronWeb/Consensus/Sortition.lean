/-
  Consensus/Sortition: weighted VRF self-sortition (`engine/consensus/sortition.ts`).

  A validator of integer weight `units` holds that many lottery tickets, each winning with
  probability `p = committeeSize / totalWeight`; the VRF output picks the number of winning
  tickets by walking the inverse binomial distribution.
-/
import NeuronWeb.Core.Hash

set_option autoImplicit false

namespace NeuronWeb

variable {F : Type}

/-- Domain-separated VRF input for a sortition draw. -/
def sortitionAlpha (seed : String) (epoch shard : Int) : Bytes :=
  utf8ToBytes ("neuron-sortition:" ++ seed ++ ":" ++ toString epoch ++ ":" ++ toString shard)

variable [JsNumber F]

/-- Map a VRF output to a ratio in `[0, 1)` by its top 48 bits.  Every `betaHex` that
reaches this function was written by `bytesToHex`, so the decoding never throws. -/
def betaToRatio (betaHex : Hex) : F :=
  let b := (hexToBytes betaHex).getD []
  let v := (List.range 6).foldl (fun v i => v * 256 + (b.getD i 0).toNat) 0
  JsNumber.div (JsNumber.ofInt v) (JsNumber.ofInt (2 ^ 48))

/-- The loop of `selectedSeats`, with `left = units - k` tickets still to look at. -/
def selectedSeatsLoop (ratio odds : F) : Nat → Nat → F → F → Nat
  | 0, k, _, _ => k
  | left + 1, k, pmf, cum =>
    if JsNumber.le cum ratio then
      let k' := k + 1
      -- here `left + 1` is `units - k' + 1`
      let pmf' := JsNumber.mul pmf
        (JsNumber.mul (JsNumber.div (JsNumber.ofInt (left + 1)) (JsNumber.ofInt k')) odds)
      selectedSeatsLoop ratio odds left k' pmf' (JsNumber.add cum pmf')
    else k

/-- Inverse binomial distribution: the smallest `k` whose cumulative mass exceeds `ratio`. -/
def selectedSeats (ratio : F) (units : Nat) (p : F) : Nat :=
  if JsNumber.le p (JsNumber.ofInt 0) ∨ units = 0 then 0
  else if JsNumber.le (JsNumber.ofInt 1) p then units
  else
    let pmf := JsNumber.pow (JsNumber.sub (JsNumber.ofInt 1) p) (JsNumber.ofInt units)
    let odds := JsNumber.div p (JsNumber.sub (JsNumber.ofInt 1) p)
    selectedSeatsLoop ratio odds units 0 pmf pmf

/-- Quantise a voting weight to an integer number of lottery tickets. -/
def weightToUnits (weight : F) : Nat :=
  (max 1 (JsNumber.toInt (JsNumber.round weight))).toNat

/-- The probability of one ticket. -/
def ticketProbability (totalWeight committeeSize : F) : F :=
  JsNumber.min (JsNumber.ofInt 1) (JsNumber.div committeeSize totalWeight)

/-- How many committee seats `beta` wins for a validator of `weight`. -/
def seatsFromBeta (betaHex : Hex) (weight totalWeight committeeSize : F) : Nat :=
  if JsNumber.le totalWeight (JsNumber.ofInt 0) ∨ JsNumber.le committeeSize (JsNumber.ofInt 0)
  then 0
  else
    selectedSeats (betaToRatio betaHex) (weightToUnits weight)
      (ticketProbability totalWeight committeeSize)

/-- Verify a claimed sortition: the seat count when `pi` is a valid VRF proof by
`pubHex` for `(seed, epoch, shard)`. -/
def verifySortition (P : Primitives F) (pubHex : Hex) (seed : String) (epoch shard : Int)
    (weight totalWeight committeeSize : F) (piHex : Hex) : Option Nat :=
  (P.vrfVerify pubHex (sortitionAlpha seed epoch shard) piHex).map fun beta =>
    seatsFromBeta (bytesToHex beta) weight totalWeight committeeSize

structure SortitionProof where
  /-- Number of committee seats won. -/
  seats : Nat
  /-- VRF proof of the draw. -/
  pi : Hex
  /-- VRF output the seat count derives from. -/
  beta : Hex

/-- Self-sortition: prove how many committee seats this key wins.  `vrfProve` gives the
proof and the output, which the source hands on hex-coded, or throws. -/
def proveSortition (vrfProve : Hex → Bytes → Option (Hex × Bytes)) (privHex : Hex) (seed : String)
    (epoch shard : Int) (weight totalWeight committeeSize : F) : Option SortitionProof :=
  (vrfProve privHex (sortitionAlpha seed epoch shard)).map fun out =>
    ⟨seatsFromBeta (bytesToHex out.2) weight totalWeight committeeSize, out.1, bytesToHex out.2⟩

/-! ## Draws -/

/-- VRF uniqueness: one key and one input have one valid output. -/
def VrfUnique (P : Primitives F) : Prop :=
  ∀ pub alpha pi pi' beta beta',
    P.vrfVerify pub alpha pi = some beta → P.vrfVerify pub alpha pi' = some beta' →
      beta = beta'

/-- The seats a key draws in a shard: the number some valid proof for that shard shows. -/
def Draws (P : Primitives F) (pub : Hex) (seed : String) (epoch shard : Int)
    (weight totalWeight committeeSize : F) (seats : Nat) : Prop :=
  ∃ pi, verifySortition P pub seed epoch shard weight totalWeight committeeSize pi = some seats

theorem Draws.unique {P : Primitives F} (hvrf : VrfUnique P) {pub : Hex} {seed : String}
    {epoch shard : Int} {weight totalWeight committeeSize : F} {n m : Nat}
    (hn : Draws P pub seed epoch shard weight totalWeight committeeSize n)
    (hm : Draws P pub seed epoch shard weight totalWeight committeeSize m) : n = m := by
  obtain ⟨pi, hn⟩ := hn
  obtain ⟨pi', hm⟩ := hm
  simp only [verifySortition, Option.map_eq_some_iff] at hn hm
  obtain ⟨beta, hbeta, rfl⟩ := hn
  obtain ⟨beta', hbeta', rfl⟩ := hm
  rw [hvrf pub _ pi pi' beta beta' hbeta hbeta']

end NeuronWeb
