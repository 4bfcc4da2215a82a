/-
  Core/WordAccumulator: the accumulator with the 32-bit operators of the source.

  `splitPoint`, `merkleRoot`, `merkleProof` and `verifyMerkleProof` count with `<<`, `>>` and
  `&`, which turn their operands into 32-bit words with a sign.

  Up to 2 ^ 30 leaves the words hold every number that occurs, and the functions are those over
  the whole numbers (`merkleRoot32_eq`, `merkleProof32_eq`, `verifyMerkleProof32_eq`).
-/
import NeuronWeb.Core.Inclusion
import NeuronWeb.Sample

set_option autoImplicit false

namespace NeuronWeb

variable {F : Type}

/-! ## Operators -/

/-- `k << 1`. -/
def shl1 (k : Int) : Int := (BitVec.ofInt 32 k <<< 1).toInt

/-- `k >> 1`. -/
def shr1 (k : Int) : Int := ((BitVec.ofInt 32 k).sshiftRight 1).toInt

/-- `k & 1`. -/
def lowBit (k : Int) : Int := (BitVec.ofInt 32 k &&& 1#32).toInt

theorem toInt_ofInt32 {k : Nat} (h : k < 2 ^ 31) : (BitVec.ofInt 32 k).toInt = k := by
  rw [BitVec.toInt_ofInt, Int.bmod_eq_of_le (by omega) (by omega)]

theorem toNat_ofInt32 {k : Nat} (h : k < 2 ^ 31) : (BitVec.ofInt 32 k).toNat = k := by
  rw [BitVec.ofInt_natCast, BitVec.toNat_ofNat, Nat.mod_eq_of_lt (by omega)]

theorem shl1_of_lt {k : Nat} (h : k < 2 ^ 30) : shl1 k = 2 * k := by
  rw [shl1, BitVec.toInt_shiftLeft, toNat_ofInt32 (by omega), Nat.shiftLeft_eq,
    Int.bmod_eq_of_le (by omega) (by omega)]
  omega

theorem shr1_of_lt {k : Nat} (h : k < 2 ^ 31) : shr1 k = (k / 2 : Nat) := by
  rw [shr1, BitVec.toInt_sshiftRight, toInt_ofInt32 h, Int.shiftRight_eq_div_pow]
  omega

theorem lowBit_of_lt {k : Nat} (h : k < 2 ^ 31) : lowBit k = (k % 2 : Nat) := by
  have hnat : (BitVec.ofInt 32 k &&& 1#32).toNat = k % 2 := by
    rw [BitVec.toNat_and, toNat_ofInt32 h]
    exact Nat.and_one_is_mod k
  rw [lowBit, BitVec.toInt_eq_toNat_of_lt (by omega), hnat]

/-! ## Root and path -/

/-- The loop of `splitPoint`. -/
def splitLoop32 : Nat → Int → Int → Option Int
  | 0, _, _ => none
  | fuel + 1, k, n => if shl1 k < n then splitLoop32 fuel (shl1 k) n else some k

/-- `splitPoint(n)`. -/
def splitPoint32 (fuel : Nat) (n : Int) : Option Int := splitLoop32 fuel 1 n

/-- Where `slice` cuts: a bound below 0 counts from the end. -/
def sliceBound (length : Nat) (k : Int) : Nat := if k < 0 then (length + k).toNat else k.toNat

/-- `merkleRoot(leaves)`. -/
def merkleRoot32 (P : Primitives F) : Nat → List Bytes → Option Bytes
  | 0, _ => none
  | _ + 1, [] => some (P.sha256 [])
  | _ + 1, [leaf] => some (leafHash P leaf)
  | fuel + 1, leaves => do
    let k ← splitPoint32 fuel leaves.length
    let cut := sliceBound leaves.length k
    let left ← merkleRoot32 P fuel (leaves.take cut)
    let right ← merkleRoot32 P fuel (leaves.drop cut)
    return nodeHash P left right

/-- `merkleProof(leaves, index)`; also `none` when the index is out of range and it throws. -/
def merkleProof32 (P : Primitives F) : Nat → List Bytes → Int → Option (List Bytes)
  | 0, _, _ => none
  | fuel + 1, leaves, index =>
    if index < 0 ∨ leaves.length ≤ index then none
    else if leaves.length = 1 then some []
    else do
      let k ← splitPoint32 fuel leaves.length
      let cut := sliceBound leaves.length k
      if index < k then
        let below ← merkleProof32 P fuel (leaves.take cut) index
        let sibling ← merkleRoot32 P fuel (leaves.drop cut)
        return below ++ [sibling]
      else
        let below ← merkleProof32 P fuel (leaves.drop cut) (index - k)
        let sibling ← merkleRoot32 P fuel (leaves.take cut)
        return below ++ [sibling]

/-! ## Verifier -/

/-- The inner `do … while` of `verifyMerkleProof`. -/
def shiftLoop32 : Nat → Int → Int → Option (Int × Int)
  | 0, _, _ => none
  | fuel + 1, fn, sn =>
    let fn := shr1 fn
    let sn := shr1 sn
    if lowBit fn = 0 ∧ fn ≠ 0 then shiftLoop32 fuel fn sn else some (fn, sn)

/-- The loop of `verifyMerkleProof` over the path, and its result. -/
def verifyLoop32 (P : Primitives F) (fuel : Nat) (root : Bytes) :
    List Bytes → Int → Int → Bytes → Option Bool
  | [], _, sn, r => some (sn == 0 && r == root)
  | p :: rest, fn, sn, r =>
    if sn = 0 then some false
    else if lowBit fn = 1 ∨ fn = sn then do
      let counters ← (if lowBit fn = 0 then shiftLoop32 fuel fn sn else some (fn, sn))
      verifyLoop32 P fuel root rest (shr1 counters.1) (shr1 counters.2) (nodeHash P p r)
    else verifyLoop32 P fuel root rest (shr1 fn) (shr1 sn) (nodeHash P r p)

/-- `verifyMerkleProof(root, leaf, index, treeSize, proof)`. -/
def verifyMerkleProof32 (P : Primitives F) (fuel : Nat) (root leaf : Bytes)
    (index treeSize : Int) (proof : List Bytes) : Option Bool :=
  if index < 0 ∨ treeSize ≤ index then some false
  else if treeSize = 1 then some (proof.isEmpty && leafHash P leaf == root)
  else verifyLoop32 P fuel root proof index (treeSize - 1) (leafHash P leaf)

/-! ## The split on words -/

theorem splitLoop32_stuck {n : Int} (h : 0 < n) (fuel : Nat) :
    splitLoop32 fuel (2 ^ 30) n = none := by
  have htop : shl1 (2 ^ 30) = -2 ^ 31 := by decide
  have hbottom : shl1 (-2 ^ 31) = 0 := by decide
  have hzero : shl1 0 = 0 := by decide
  have hfromZero : ∀ fuel, splitLoop32 fuel 0 n = none := by
    intro fuel
    induction fuel with
    | zero => rfl
    | succ fuel ih => rw [splitLoop32, hzero, if_pos h, ih]
  cases fuel with
  | zero => rfl
  | succ fuel =>
    rw [splitLoop32, htop, if_pos (by omega)]
    cases fuel with
    | zero => rfl
    | succ fuel => rw [splitLoop32, hbottom, if_pos h, hfromZero]

theorem shl1_two_pow {m : Nat} (h : m < 30) : shl1 (2 ^ m) = 2 ^ (m + 1) := by
  have hlt : 2 ^ m < 2 ^ 30 := Nat.pow_lt_pow_right (by omega) h
  have hcast : ((2 ^ m : Nat) : Int) = 2 ^ m := by push_cast; rfl
  rw [← hcast, shl1_of_lt hlt, hcast, pow_succ, mul_comm]

/-- What the loop returns: the power of two below `n` that leaves at most itself.  It does not
return from more than 2 ^ 30. -/
theorem splitLoop32_some {n : Nat} : ∀ {fuel m : Nat} {k : Int}, m ≤ 30 → 2 ^ m < n →
    splitLoop32 fuel (2 ^ m) n = some k →
      n ≤ 2 ^ 30 ∧ ∃ j, k = (2 ^ j : Nat) ∧ 2 ^ j < n ∧ n ≤ 2 * 2 ^ j := by
  intro fuel
  induction fuel with
  | zero =>
    intro m k _ _ h
    cases h
  | succ fuel ih =>
    intro m k hm hlt h
    rcases Nat.lt_or_eq_of_le hm with hm | rfl
    · have hpow : 2 ^ (m + 1) ≤ 2 ^ 30 := Nat.pow_le_pow_right (by omega) hm
      rw [splitLoop32, shl1_two_pow hm] at h
      split at h
      case isTrue hless => exact ih hm (by exact_mod_cast hless) h
      case isFalse hstop =>
        have hle : n ≤ 2 ^ (m + 1) := by
          have hint : (2 : Int) ^ (m + 1) = (2 ^ (m + 1) : Nat) := by push_cast; rfl
          omega
        have hk : k = (2 ^ m : Nat) := by
          rw [← Option.some.inj h]
          push_cast
          rfl
        exact ⟨by omega, m, hk, hlt, by rw [pow_succ] at hle; omega⟩
    · rw [splitLoop32_stuck (by omega)] at h
      cases h

theorem splitLoop32_isSome {n : Nat} (hn : n ≤ 2 ^ 30) : ∀ {fuel m : Nat}, 2 ^ m < n →
    31 ≤ fuel + m → (splitLoop32 fuel (2 ^ m) n).isSome = true := by
  intro fuel
  induction fuel with
  | zero =>
    intro m hlt hfuel
    have hpow : 2 ^ 31 ≤ 2 ^ m := Nat.pow_le_pow_right (by omega) (by omega)
    omega
  | succ fuel ih =>
    intro m hlt hfuel
    have hm : m < 30 := (Nat.pow_lt_pow_iff_right (by omega)).mp (Nat.lt_of_lt_of_le hlt hn)
    rw [splitLoop32, shl1_two_pow hm]
    split
    case isTrue hless => exact ih (by exact_mod_cast hless) (by omega)
    case isFalse => rfl

theorem two_pow_unique {n j m : Nat} (hj : 2 ^ j < n ∧ n ≤ 2 * 2 ^ j)
    (hm : 2 ^ m < n ∧ n ≤ 2 * 2 ^ m) : j = m := by
  have hjm : 2 ^ j < 2 ^ (m + 1) := by rw [pow_succ]; omega
  have hmj : 2 ^ m < 2 ^ (j + 1) := by rw [pow_succ]; omega
  have h₁ := (Nat.pow_lt_pow_iff_right (by omega)).mp hjm
  have h₂ := (Nat.pow_lt_pow_iff_right (by omega)).mp hmj
  omega

theorem splitPoint32_some {fuel n : Nat} {k : Int} (hn : 1 < n)
    (h : splitPoint32 fuel n = some k) : n ≤ 2 ^ 30 ∧ k = splitPoint n := by
  obtain ⟨hle, j, rfl, hj⟩ := splitLoop32_some (m := 0) (by omega) (by omega) h
  obtain ⟨m, hsplit, hm⟩ := splitPoint_spec hn
  rw [hsplit, two_pow_unique hj hm]
  exact ⟨hle, rfl⟩

theorem splitPoint32_eq {fuel n : Nat} (hn : 1 < n) (hle : n ≤ 2 ^ 30) (hfuel : 31 ≤ fuel) :
    splitPoint32 fuel n = some (splitPoint n : Int) := by
  have hsome : (splitLoop32 fuel (2 ^ 0) n).isSome = true :=
    splitLoop32_isSome hle (by omega) (by omega)
  obtain ⟨k, hk⟩ := Option.isSome_iff_exists.mp hsome
  have hk : splitPoint32 fuel n = some k := hk
  rw [hk, (splitPoint32_some hn hk).2]

theorem sliceBound_natCast (length k : Nat) : sliceBound length k = k := by
  rw [sliceBound, if_neg (by omega), Int.toNat_natCast]

/-! ## Root and path on words -/

variable {P : Primitives F}

variable {leaves : List Bytes}

theorem merkleRoot32_node (h : 1 < leaves.length) (fuel : Nat) :
    merkleRoot32 P (fuel + 1) leaves =
      (splitPoint32 fuel leaves.length).bind fun k =>
        (merkleRoot32 P fuel (leaves.take (sliceBound leaves.length k))).bind fun left =>
          (merkleRoot32 P fuel (leaves.drop (sliceBound leaves.length k))).bind fun right =>
            some (nodeHash P left right) := by
  match leaves, h with
  | _ :: _ :: _, _ => rfl

theorem length_parts (h : 1 < leaves.length) :
    (leaves.take (splitPoint leaves.length)).length < leaves.length ∧
      (leaves.drop (splitPoint leaves.length)).length < leaves.length := by
  obtain ⟨m, hsplit, hlt, _⟩ := splitPoint_spec h
  have hpos := Nat.two_pow_pos m
  rw [List.length_take, List.length_drop, hsplit]
  omega

/-- What `merkleRoot` returns is the root over whole numbers, and it returns from no more than
2 ^ 30 leaves. -/
theorem merkleRoot32_some {fuel : Nat} {root : Bytes}
    (h : merkleRoot32 P fuel leaves = some root) :
    leaves.length ≤ 2 ^ 30 ∧ root = merkleRoot P leaves := by
  induction fuel generalizing leaves root with
  | zero => cases h
  | succ fuel ih =>
    by_cases hlong : 1 < leaves.length
    · rw [merkleRoot32_node hlong] at h
      obtain ⟨k, hk, hparts⟩ := Option.bind_eq_some_iff.mp h
      obtain ⟨left, hleft, hothers⟩ := Option.bind_eq_some_iff.mp hparts
      obtain ⟨right, hright, hnode⟩ := Option.bind_eq_some_iff.mp hothers
      obtain ⟨hle, rfl⟩ := splitPoint32_some hlong hk
      rw [sliceBound_natCast] at hleft hright
      refine ⟨hle, ?_⟩
      rw [merkleRoot_node hlong, ← (ih hleft).2, ← (ih hright).2]
      exact (Option.some.inj hnode).symm
    · match leaves, hlong with
      | [], _ => exact ⟨by simp, (Option.some.inj h).symm⟩
      | [leaf], _ => exact ⟨by simp, (Option.some.inj h).symm⟩
      | _ :: _ :: _, hlong => exact absurd (by simp) hlong

theorem merkleRoot32_eq {fuel : Nat} (hle : leaves.length ≤ 2 ^ 30)
    (hfuel : leaves.length + 32 ≤ fuel) :
    merkleRoot32 P fuel leaves = some (merkleRoot P leaves) := by
  induction fuel generalizing leaves with
  | zero => omega
  | succ fuel ih =>
    by_cases hlong : 1 < leaves.length
    · obtain ⟨hleft, hright⟩ := length_parts hlong
      rw [merkleRoot32_node hlong, splitPoint32_eq hlong hle (by omega), Option.bind_some,
        sliceBound_natCast, ih (by omega) (by omega), Option.bind_some,
        ih (by omega) (by omega), Option.bind_some, merkleRoot_node hlong]
    · match leaves, hlong with
      | [], _ => rfl
      | [leaf], _ => rfl
      | _ :: _ :: _, hlong => exact absurd (by simp) hlong

theorem merkleProof32_eq {fuel fuel' i : Nat}
    (hle : leaves.length ≤ 2 ^ 30) (hfuel : leaves.length + 32 ≤ fuel)
    (hfuel' : leaves.length ≤ fuel') (hi : i < leaves.length) :
    merkleProof32 P fuel leaves i = some (merkleProofFuel P fuel' leaves i) := by
  induction fuel generalizing leaves fuel' i with
  | zero => omega
  | succ fuel ih =>
    obtain ⟨fuel', rfl⟩ := Nat.exists_eq_succ_of_ne_zero (show fuel' ≠ 0 by omega)
    rw [merkleProof32, if_neg (by omega), Nat.succ_eq_add_one, merkleProofFuel]
    by_cases hone : leaves.length = 1
    · rw [if_pos hone, if_pos hone]
    · have hlong : 1 < leaves.length := by omega
      obtain ⟨hleft, hright⟩ := length_parts hlong
      have hlenTake : (leaves.take (splitPoint leaves.length)).length =
          min (splitPoint leaves.length) leaves.length := List.length_take
      have hlenDrop : (leaves.drop (splitPoint leaves.length)).length =
          leaves.length - splitPoint leaves.length := List.length_drop
      rw [if_neg hone, if_neg hone, splitPoint32_eq hlong hle (by omega)]
      simp only [Option.bind_eq_bind, Option.bind_some, sliceBound_natCast, Nat.cast_lt]
      by_cases hside : i < splitPoint leaves.length
      · have htake : i < (leaves.take (splitPoint leaves.length)).length := by omega
        rw [if_pos hside, if_pos hside,
          ih (by omega) (by omega) (show _ ≤ fuel' by omega) htake,
          merkleRoot32_eq (by omega) (by omega)]
        rfl
      · have hcast : (i : Int) - splitPoint leaves.length =
            (i - splitPoint leaves.length : Nat) := by omega
        have hdrop : i - splitPoint leaves.length <
            (leaves.drop (splitPoint leaves.length)).length := by omega
        rw [if_neg hside, if_neg hside, hcast,
          ih (by omega) (by omega) (show _ ≤ fuel' by omega) hdrop,
          merkleRoot32_eq (by omega) (by omega)]
        rfl

/-! ## The verifier on words -/

theorem shiftCounters_le (fuel fn sn : Nat) :
    (shiftCounters fuel fn sn).1 ≤ fn ∧ (shiftCounters fuel fn sn).2 ≤ sn := by
  induction fuel generalizing fn sn with
  | zero => exact ⟨le_refl _, le_refl _⟩
  | succ fuel ih =>
    rw [shiftCounters]
    split
    · obtain ⟨hfn, hsn⟩ := ih (fn / 2) (sn / 2)
      exact ⟨by omega, by omega⟩
    · exact ⟨Nat.div_le_self _ _, Nat.div_le_self _ _⟩

theorem shiftLoop32_succ {fn sn : Nat} (hfn : fn < 2 ^ 31) (hsn : sn < 2 ^ 31) (fuel : Nat) :
    shiftLoop32 (fuel + 1) fn sn =
      if fn / 2 % 2 = 0 ∧ fn / 2 ≠ 0 then shiftLoop32 fuel (fn / 2 : Nat) (sn / 2 : Nat)
      else some ((fn / 2 : Nat), (sn / 2 : Nat)) := by
  rw [shiftLoop32, shr1_of_lt hfn, shr1_of_lt hsn, lowBit_of_lt (by omega)]
  norm_cast

theorem shiftLoop32_some {fuel fuel' fn sn : Nat} {c : Int × Int} (hfn : fn < 2 ^ 31)
    (hsn : sn < 2 ^ 31) (hfuel : fn < fuel') (h : shiftLoop32 fuel fn sn = some c) :
    c = (((shiftCounters fuel' fn sn).1 : Int), ((shiftCounters fuel' fn sn).2 : Int)) := by
  induction fuel generalizing fuel' fn sn with
  | zero => cases h
  | succ fuel ih =>
    obtain ⟨fuel', rfl⟩ := Nat.exists_eq_succ_of_ne_zero (show fuel' ≠ 0 by omega)
    rw [shiftLoop32_succ hfn hsn] at h
    rw [Nat.succ_eq_add_one, shiftCounters]
    by_cases hmore : fn / 2 % 2 = 0 ∧ fn / 2 ≠ 0
    · rw [if_pos hmore] at h ⊢
      exact ih (by omega) (by omega) (by omega) h
    · rw [if_neg hmore] at h ⊢
      exact (Option.some.inj h).symm

theorem shiftLoop32_isSome {fuel fn sn : Nat} (hfn : fn < 2 ^ 31) (hsn : sn < 2 ^ 31)
    (hfuel : fn < fuel) : (shiftLoop32 fuel fn sn).isSome = true := by
  induction fuel generalizing fn sn with
  | zero => omega
  | succ fuel ih =>
    rw [shiftLoop32_succ hfn hsn]
    split
    · exact ih (by omega) (by omega) (by omega)
    · rfl

/-- Whether a climb has arrived at `root`. -/
def arrives (root : Bytes) : Option (Nat × Bytes) → Bool
  | some (sn, r) => sn == 0 && r == root
  | none => false

theorem verifyLoop32_cons {fn sn : Nat} (hfn : fn < 2 ^ 31) (hsn : sn < 2 ^ 31) (fuel : Nat)
    (root p : Bytes) (rest : List Bytes) (r : Bytes) :
    verifyLoop32 P fuel root (p :: rest) fn sn r =
      if sn = 0 then some false
      else if fn % 2 = 1 ∨ fn = sn then
        (if fn % 2 = 0 then shiftLoop32 fuel fn sn else some ((fn : Int), (sn : Int))).bind
          fun counters => verifyLoop32 P fuel root rest (shr1 counters.1) (shr1 counters.2)
            (nodeHash P p r)
      else verifyLoop32 P fuel root rest (fn / 2 : Nat) (sn / 2 : Nat) (nodeHash P r p) := by
  rw [verifyLoop32, lowBit_of_lt hfn, shr1_of_lt hfn, shr1_of_lt hsn]
  norm_cast

theorem verifyLoop32_some {fuel fn sn : Nat} (hfn : fn < 2 ^ 31) (hsn : sn < 2 ^ 31)
    {root r : Bytes} {proof : List Bytes} {verdict : Bool}
    (h : verifyLoop32 P fuel root proof fn sn r = some verdict) :
    verdict = arrives root (foldAuditPath P proof fn sn r) := by
  induction proof generalizing fn sn r with
  | nil =>
    have hzero : ((sn : Int) == 0) = (sn == 0) := by
      rw [Bool.eq_iff_iff, beq_iff_eq, beq_iff_eq, Int.natCast_eq_zero]
    rw [← Option.some.inj h, foldAuditPath, arrives, hzero]
  | cons p rest ih =>
    rw [verifyLoop32_cons hfn hsn] at h
    rw [foldAuditPath]
    by_cases hzero : sn = 0
    · rw [if_pos hzero] at h ⊢
      exact (Option.some.inj h).symm
    rw [if_neg hzero] at h ⊢
    by_cases hside : fn % 2 = 1 ∨ fn = sn
    · rw [if_pos hside] at h ⊢
      obtain ⟨counters, hcounters, hrest⟩ := Option.bind_eq_some_iff.mp h
      by_cases heven : fn % 2 = 0
      · rw [if_pos heven] at hcounters ⊢
        obtain ⟨hfn', hsn'⟩ := shiftCounters_le (fn + 1) fn sn
        rw [shiftLoop32_some hfn hsn (show fn < fn + 1 by omega) hcounters,
          shr1_of_lt (by omega), shr1_of_lt (by omega)] at hrest
        have hup : (shiftCounters (fn + 1) fn sn).1 / 2 < 2 ^ 31 := by omega
        have hlast : (shiftCounters (fn + 1) fn sn).2 / 2 < 2 ^ 31 := by omega
        exact ih hup hlast hrest
      · rw [if_neg heven] at hcounters ⊢
        rw [← Option.some.inj hcounters, shr1_of_lt hfn, shr1_of_lt hsn] at hrest
        exact ih (by omega) (by omega) hrest
    · rw [if_neg hside] at h ⊢
      exact ih (by omega) (by omega) h

theorem verifyLoop32_isSome {fuel fn sn : Nat} (hfn : fn < 2 ^ 31) (hsn : sn < 2 ^ 31)
    (hfuel : fn < fuel) (root r : Bytes) (proof : List Bytes) :
    (verifyLoop32 P fuel root proof fn sn r).isSome = true := by
  induction proof generalizing fn sn r with
  | nil => rfl
  | cons p rest ih =>
    rw [verifyLoop32_cons hfn hsn]
    split
    case isTrue => rfl
    case isFalse =>
      split
      case isTrue =>
        by_cases heven : fn % 2 = 0
        · obtain ⟨c, hc⟩ := Option.isSome_iff_exists.mp (shiftLoop32_isSome hfn hsn hfuel)
          obtain ⟨hfn', hsn'⟩ := shiftCounters_le (fn + 1) fn sn
          rw [if_pos heven, hc, Option.bind_some,
            shiftLoop32_some hfn hsn (show fn < fn + 1 by omega) hc, shr1_of_lt (by omega),
            shr1_of_lt (by omega)]
          exact ih (by omega) (by omega) (by omega) _
        · rw [if_neg heven, Option.bind_some, shr1_of_lt hfn, shr1_of_lt hsn]
          exact ih (by omega) (by omega) (by omega) _
      case isFalse => exact ih (by omega) (by omega) (by omega) _

theorem verifyMerkleProof32_some {fuel i n : Nat} (hn : n < 2 ^ 31) {root leaf : Bytes}
    {proof : List Bytes} {verdict : Bool}
    (h : verifyMerkleProof32 P fuel root leaf i n proof = some verdict) :
    verdict = verifyMerkleProof P root leaf i n proof := by
  rw [verifyMerkleProof32] at h
  rw [verifyMerkleProof]
  by_cases hrange : (i : Int) < 0 ∨ (n : Int) ≤ i
  · rw [if_pos hrange] at h ⊢
    exact (Option.some.inj h).symm
  rw [if_neg hrange] at h ⊢
  by_cases hone : (n : Int) = 1
  · rw [if_pos hone] at h ⊢
    exact (Option.some.inj h).symm
  rw [if_neg hone] at h ⊢
  have hlast : (n : Int) - 1 = (n - 1 : Nat) := by omega
  rw [hlast] at h
  exact verifyLoop32_some (by omega) (by omega) h

theorem verifyMerkleProof32_eq {fuel i n : Nat} (hn : n < 2 ^ 31) (hfuel : n ≤ fuel)
    (root leaf : Bytes) (proof : List Bytes) :
    verifyMerkleProof32 P fuel root leaf i n proof =
      some (verifyMerkleProof P root leaf i n proof) := by
  have hsome : (verifyMerkleProof32 P fuel root leaf i n proof).isSome = true := by
    rw [verifyMerkleProof32]
    split
    case isTrue => rfl
    case isFalse hrange =>
      split
      case isTrue => rfl
      case isFalse =>
        have hlast : (n : Int) - 1 = (n - 1 : Nat) := by omega
        rw [hlast]
        exact verifyLoop32_isSome (by omega) (by omega) (by omega) _ _ _
  obtain ⟨verdict, hverdict⟩ := Option.isSome_iff_exists.mp hsome
  rw [hverdict, verifyMerkleProof32_some hn hverdict]

/-! ## Completeness -/

/-- `verifyMerkleProof(merkleRoot(leaves), leaves[i], i, leaves.length, merkleProof(leaves, i))`. -/
def provesLeaf (P : Primitives F) (fuel : Nat) (leaves : List Bytes) (i : Nat) : Option Bool := do
  let root ← merkleRoot32 P fuel leaves
  let leaf ← leaves[i]?
  let proof ← merkleProof32 P fuel leaves i
  verifyMerkleProof32 P fuel root leaf i leaves.length proof

theorem provesLeaf_of_gt {leaves : List Bytes} (h : 2 ^ 30 < leaves.length) (fuel i : Nat) :
    provesLeaf P fuel leaves i = none := by
  have hroot : merkleRoot32 P fuel leaves = none := by
    rw [Option.eq_none_iff_forall_ne_some]
    intro root hroot
    have hle := (merkleRoot32_some hroot).1
    omega
  rw [provesLeaf, hroot]
  rfl

/-- The path of every leaf verifies, for exactly the leaf lists of at most 2 ^ 30 entries. -/
theorem merkle_complete_iff (P : Primitives F) {leaves : List Bytes} {i : Nat}
    (hi : i < leaves.length) :
    (∃ fuel, provesLeaf P fuel leaves i = some true) ↔ leaves.length ≤ 2 ^ 30 := by
  constructor
  · rintro ⟨fuel, h⟩
    rw [provesLeaf] at h
    obtain ⟨root, hroot, -⟩ := Option.bind_eq_some_iff.mp h
    exact (merkleRoot32_some hroot).1
  · intro hle
    refine ⟨leaves.length + 32, ?_⟩
    have hleaf : leaves[i]? = some leaves[i] := List.getElem?_eq_getElem hi
    obtain ⟨proof, hproof, hverify⟩ := verifyMerkleProof_merkleProof P hleaf
    have hpath : merkleProofFuel P leaves.length leaves i = proof := by
      rw [merkleProof, if_neg (by omega), Int.toNat_natCast] at hproof
      exact Option.some.inj hproof
    rw [provesLeaf, merkleRoot32_eq hle (le_refl _), hleaf,
      merkleProof32_eq hle (le_refl _) (le_refl _) hi, hpath]
    have hreturns := verifyMerkleProof32_eq (P := P) (i := i) (show leaves.length < 2 ^ 31 by omega)
      (Nat.le_add_right _ 32) (merkleRoot P leaves) leaves[i] proof
    rw [hverify] at hreturns
    exact hreturns

/-- Five leaves, the last one on its own. -/
theorem merkle_complete_five :
    (∃ fuel, provesLeaf Sample.primitives fuel [[1], [2], [3], [4], [5]] 4 = some true) ↔
      [[1], [2], [3], [4], [5]].length ≤ 2 ^ 30 :=
  merkle_complete_iff Sample.primitives (by decide)

/-- With 2 ^ 30 + 1 leaves there is no root to verify against. -/
theorem merkle_complete_overflow :
    (List.replicate (2 ^ 30 + 1) ([] : Bytes)).length < 2 ^ 31 ∧
      ¬ ∃ fuel, provesLeaf Sample.primitives fuel (List.replicate (2 ^ 30 + 1) []) 0 =
        some true := by
  rw [List.length_replicate]
  refine ⟨by omega, ?_⟩
  rintro ⟨fuel, h⟩
  rw [provesLeaf_of_gt (by rw [List.length_replicate]; omega)] at h
  cases h

end NeuronWeb
