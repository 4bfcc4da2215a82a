/-
  Core/Inclusion: every audit path verifies.

  `merkleRoot` and `merkleProof` recurse on halves of the leaf list; `verifyMerkleProof` is a
  loop over two counters.  Between them stands the tree that the recursion runs through
  (`exists_tree`): it is ragged in the sense of `AuditPath`, its root is `merkleRoot`, and
  its paths are those of `merkleProof`.
-/
import NeuronWeb.Core.Accumulator
import NeuronWeb.Foundation.AuditPath

set_option autoImplicit false

namespace NeuronWeb

open AuditPath

variable {F : Type} {P : Primitives F}

/-! ## The split -/

theorem splitLoop_spec (n : Nat) : ∀ fuel m, 2 ^ m < n → n ≤ fuel + 2 ^ m →
    ∃ j, splitLoop fuel (2 ^ m) n = 2 ^ j ∧ 2 ^ j < n ∧ n ≤ 2 * 2 ^ j := by
  intro fuel
  induction fuel with
  | zero =>
    intro m hlt hfuel
    omega
  | succ fuel ih =>
    intro m hlt hfuel
    rw [splitLoop]
    split
    case isTrue hdouble =>
      have hpow : 2 * 2 ^ m = 2 ^ (m + 1) := by rw [pow_succ, mul_comm]
      have hpos := Nat.two_pow_pos m
      rw [hpow] at hdouble ⊢
      exact ih (m + 1) hdouble (by omega)
    case isFalse hstop => exact ⟨m, rfl, hlt, by omega⟩

theorem splitPoint_spec {n : Nat} (h : 1 < n) :
    ∃ m, splitPoint n = 2 ^ m ∧ 2 ^ m < n ∧ n ≤ 2 * 2 ^ m := by
  have hloop := splitLoop_spec n n 0 (by simpa using h) (by omega)
  simpa [splitPoint] using hloop

/-! ## The root -/

theorem merkleRootFuel_node {leaves : List Bytes} (h : 1 < leaves.length) (fuel : Nat) :
    merkleRootFuel P (fuel + 1) leaves =
      nodeHash P (merkleRootFuel P fuel (leaves.take (splitPoint leaves.length)))
        (merkleRootFuel P fuel (leaves.drop (splitPoint leaves.length))) := by
  match leaves, h with
  | _ :: _ :: _, _ => rfl

theorem merkleRootFuel_congr : ∀ (fuel fuel' : Nat) (leaves : List Bytes),
    leaves.length ≤ fuel → leaves.length ≤ fuel' →
      merkleRootFuel P fuel leaves = merkleRootFuel P fuel' leaves := by
  intro fuel
  induction fuel with
  | zero =>
    intro fuel' leaves h _
    have hnil : leaves = [] := List.length_eq_zero_iff.mp (by omega)
    rw [hnil]
    cases fuel' with
    | zero => rfl
    | succ fuel' => rfl
  | succ fuel ih =>
    intro fuel' leaves h h'
    cases fuel' with
    | zero =>
      have hnil : leaves = [] := List.length_eq_zero_iff.mp (by omega)
      rw [hnil]
      rfl
    | succ fuel' =>
      by_cases hlong : 1 < leaves.length
      · obtain ⟨m, hsplit, hlt, _⟩ := splitPoint_spec hlong
        have hpos := Nat.two_pow_pos m
        rw [merkleRootFuel_node hlong, merkleRootFuel_node hlong, hsplit]
        rw [ih fuel' (leaves.take (2 ^ m)) (by rw [List.length_take]; omega)
            (by rw [List.length_take]; omega),
          ih fuel' (leaves.drop (2 ^ m)) (by rw [List.length_drop]; omega)
            (by rw [List.length_drop]; omega)]
      · match leaves, hlong with
        | [], _ => rfl
        | [leaf], _ => rfl
        | _ :: _ :: _, hlong => exact absurd (by simp) hlong

theorem merkleRoot_singleton (leaf : Bytes) : merkleRoot P [leaf] = leafHash P leaf := rfl

theorem merkleRoot_node {leaves : List Bytes} (h : 1 < leaves.length) :
    merkleRoot P leaves =
      nodeHash P (merkleRoot P (leaves.take (splitPoint leaves.length)))
        (merkleRoot P (leaves.drop (splitPoint leaves.length))) := by
  obtain ⟨m, hsplit, hlt, _⟩ := splitPoint_spec h
  have hpos := Nat.two_pow_pos m
  rw [merkleRoot, merkleRootFuel_node h, merkleRoot, merkleRoot]
  rw [merkleRootFuel_congr leaves.length _ (leaves.take _) (by rw [List.length_take]; omega)
      (Nat.le_succ _),
    merkleRootFuel_congr leaves.length _ (leaves.drop _) (by rw [List.length_drop]; omega)
      (Nat.le_succ _)]

/-! ## The tree of a leaf list -/

/-- `t` is the tree that `merkleRoot` and `merkleProof` recurse through. -/
structure TreeOf (P : Primitives F) (leaves : List Bytes) (t : HashTree Bytes) : Prop where
  ragged : t.Ragged
  values : t.leaves = leaves.map (leafHash P)
  root : t.root (nodeHash P) = merkleRoot P leaves
  path : ∀ fuel i, leaves.length ≤ fuel → i < leaves.length →
    merkleProofFuel P fuel leaves i = t.path (nodeHash P) i
  perfect : ∀ h, leaves.length = 2 ^ h → t.Perfect h

theorem TreeOf.size {leaves : List Bytes} {t : HashTree Bytes} (h : TreeOf P leaves t) :
    t.size = leaves.length := by
  rw [← t.length_leaves, h.values, List.length_map]

theorem treeOf_leaf (leaf : Bytes) : TreeOf P [leaf] (.leaf (leafHash P leaf)) where
  ragged := .leaf _
  values := rfl
  root := rfl
  path fuel i h hi := by
    cases fuel with
    | zero => rfl
    | succ fuel => rfl
  perfect h hsize := by
    have hzero : h = 0 := by simpa using hsize.symm
    rw [hzero]
    exact .leaf _

theorem treeOf_node {leaves : List Bytes} (hlong : 1 < leaves.length) {left right : HashTree Bytes}
    (hleft : TreeOf P (leaves.take (splitPoint leaves.length)) left)
    (hright : TreeOf P (leaves.drop (splitPoint leaves.length)) right) :
    TreeOf P leaves (.node left right) := by
  obtain ⟨m, hsplit, hlt, hle⟩ := splitPoint_spec hlong
  have htake : (leaves.take (splitPoint leaves.length)).length = 2 ^ m := by
    rw [List.length_take, hsplit]
    omega
  have hdrop : (leaves.drop (splitPoint leaves.length)).length = leaves.length - 2 ^ m := by
    rw [List.length_drop, hsplit]
  have hperfect := hleft.perfect m htake
  refine ⟨.node hperfect hright.ragged ?_, ?_, ?_, ?_, ?_⟩
  · rw [hright.size, hdrop]
    omega
  · rw [HashTree.leaves, hleft.values, hright.values, ← List.map_append, List.take_append_drop]
  · rw [HashTree.root, hleft.root, hright.root, merkleRoot_node hlong]
  · intro fuel i hfuel hi
    cases fuel with
    | zero => omega
    | succ fuel =>
      have hpos := Nat.two_pow_pos m
      rw [merkleProofFuel, if_neg (by omega), HashTree.path, hleft.size, htake]
      simp only [hsplit] at hleft hright htake hdrop ⊢
      by_cases hside : i < 2 ^ m
      · rw [if_pos hside, if_pos hside, hleft.path fuel i (by omega) (by omega), hright.root]
      · rw [if_neg hside, if_neg hside,
          hright.path fuel (i - 2 ^ m) (by omega) (by omega), hleft.root]
  · intro h hsize
    -- a full list splits into two full halves
    have hm : h = m + 1 := by
      have hlower : 2 ^ m < 2 ^ h := by omega
      have hupper : 2 ^ h ≤ 2 ^ (m + 1) := by
        rw [pow_succ]
        omega
      have h₁ := (Nat.pow_lt_pow_iff_right (by omega)).mp hlower
      have h₂ := (Nat.pow_le_pow_iff_right (by omega)).mp hupper
      omega
    subst hm
    refine .node hperfect (hright.perfect m ?_)
    rw [hdrop, hsize, pow_succ]
    omega

theorem leaves_induction {motive : List Bytes → Prop} (hleaf : ∀ leaf, motive [leaf])
    (hnode : ∀ leaves : List Bytes, 1 < leaves.length →
      motive (leaves.take (splitPoint leaves.length)) →
      motive (leaves.drop (splitPoint leaves.length)) → motive leaves)
    {leaves : List Bytes} (h : leaves ≠ []) : motive leaves := by
  induction hn : leaves.length using Nat.strong_induction_on generalizing leaves with
  | _ n ih =>
    match leaves, h with
    | [leaf], _ => exact hleaf leaf
    | a :: b :: rest, _ =>
      have hlong : 1 < (a :: b :: rest).length := by simp
      generalize a :: b :: rest = leaves at hn hlong
      obtain ⟨m, hsplit, hlt, _⟩ := splitPoint_spec hlong
      have hpos := Nat.two_pow_pos m
      have htake : (leaves.take (splitPoint leaves.length)).length = 2 ^ m := by
        rw [List.length_take, hsplit]
        omega
      have hdrop : (leaves.drop (splitPoint leaves.length)).length =
          leaves.length - 2 ^ m := by rw [List.length_drop, hsplit]
      exact hnode leaves hlong
        (ih _ (by omega) (List.ne_nil_of_length_pos (by omega)) htake)
        (ih _ (by omega) (List.ne_nil_of_length_pos (by omega)) hdrop)

theorem exists_tree (P : Primitives F) {leaves : List Bytes} (h : leaves ≠ []) :
    ∃ t, TreeOf P leaves t := by
  refine leaves_induction (motive := fun leaves => ∃ t, TreeOf P leaves t) ?_ ?_ h
  · exact fun leaf => ⟨_, treeOf_leaf leaf⟩
  · rintro leaves hlong ⟨left, hleft⟩ ⟨right, hright⟩
    exact ⟨_, treeOf_node hlong hleft hright⟩

/-! ## The verifier -/

theorem shiftCounters_zeros (d j fuel : Nat) (h : j < fuel) :
    shiftCounters fuel ((2 * d + 1) * 2 ^ (j + 1)) ((2 * d + 1) * 2 ^ (j + 1)) =
      (2 * d + 1, 2 * d + 1) := by
  induction j generalizing fuel with
  | zero =>
    obtain ⟨fuel, rfl⟩ := Nat.exists_eq_succ_of_ne_zero (show fuel ≠ 0 by omega)
    have hhalf : (2 * d + 1) * 2 ^ (0 + 1) / 2 = 2 * d + 1 := by omega
    rw [Nat.succ_eq_add_one, shiftCounters]
    simp only [hhalf]
    rw [if_neg (by omega)]
  | succ j ih =>
    obtain ⟨fuel, rfl⟩ := Nat.exists_eq_succ_of_ne_zero (show fuel ≠ 0 by omega)
    have hdouble : (2 * d + 1) * 2 ^ (j + 1 + 1) = 2 * ((2 * d + 1) * 2 ^ (j + 1)) := by ring
    have heven : (2 * d + 1) * 2 ^ (j + 1) % 2 = 0 := by
      rw [pow_succ, ← mul_assoc, Nat.mul_mod_left]
    have hne : (2 * d + 1) * 2 ^ (j + 1) ≠ 0 :=
      Nat.mul_ne_zero (by omega) (Nat.two_pow_pos (j + 1)).ne'
    have hhalf : 2 * ((2 * d + 1) * 2 ^ (j + 1)) / 2 = (2 * d + 1) * 2 ^ (j + 1) := by omega
    rw [Nat.succ_eq_add_one, shiftCounters, hdouble]
    simp only [hhalf]
    rw [if_pos ⟨heven, hne⟩]
    exact ih fuel (by omega)

theorem dropsZeros_shiftCounters :
    DropsZeros fun fn sn => shiftCounters (fn + 1) fn sn := by
  intro d j
  refine shiftCounters_zeros d j _ ?_
  have hlt : j + 1 < 2 ^ (j + 1) := Nat.lt_two_pow_self
  have hle : 2 ^ (j + 1) ≤ (2 * d + 1) * 2 ^ (j + 1) := Nat.le_mul_of_pos_left _ (by omega)
  omega

theorem foldAuditPath_eq_climb (P : Primitives F) (path : List Bytes) (fn sn : Nat) (r : Bytes) :
    foldAuditPath P path fn sn r =
      climb (nodeHash P) (fun fn sn => shiftCounters (fn + 1) fn sn) path fn sn r := by
  induction path generalizing fn sn r with
  | nil => rfl
  | cons p path ih => simp only [foldAuditPath, climb, ih]

/-- RFC 6962 completeness: the path that `merkleProof` gives for a leaf verifies against the
root that `merkleRoot` gives, for every number of leaves and every leaf. -/
theorem verifyMerkleProof_merkleProof (P : Primitives F) {leaves : List Bytes} {i : Nat}
    {leaf : Bytes} (h : leaves[i]? = some leaf) :
    ∃ proof, merkleProof P leaves i = some proof ∧
      verifyMerkleProof P (merkleRoot P leaves) leaf i leaves.length proof = true := by
  obtain ⟨hi, _⟩ := List.getElem?_eq_some_iff.mp h
  have hne : leaves ≠ [] := List.ne_nil_of_length_pos (by omega)
  obtain ⟨t, ht⟩ := exists_tree P hne
  have hpath := ht.path leaves.length i (le_refl _) hi
  refine ⟨t.path (nodeHash P) i, ?_, ?_⟩
  · rw [merkleProof, if_neg (by omega), Int.toNat_natCast, hpath]
  · have hleaf : t.leaves[i]? = some (leafHash P leaf) := by
      rw [ht.values, List.getElem?_map, h, Option.map_some]
    have hclimb : climb (nodeHash P) (fun fn sn => shiftCounters (fn + 1) fn sn)
        (t.path (nodeHash P) i) i (t.size - 1) (leafHash P leaf) = some (0, t.root (nodeHash P)) :=
      climb_path dropsZeros_shiftCounters ht.ragged hleaf
    rw [ht.root, ht.size] at hclimb
    rw [verifyMerkleProof, if_neg (by omega)]
    by_cases hone : leaves.length = 1
    · have hzero : i = 0 := by omega
      obtain ⟨x, rfl⟩ := List.length_eq_one_iff.mp hone
      subst hzero
      have hx : x = leaf := by simpa using h
      rw [if_pos (by simp), ← hpath, hx, merkleRoot_singleton]
      simp [merkleProofFuel]
    · rw [if_neg (by omega), Int.toNat_natCast, Int.toNat_natCast, foldAuditPath_eq_climb,
        hclimb]
      simp

/-! ## The hex form -/

theorem mapM_hexToBytes (proof : List Bytes) :
    (proof.map bytesToHex).mapM hexToBytes = some proof := by
  induction proof with
  | nil => rfl
  | cons p proof ih => simp [ih]

theorem verifyInclusion_proofHex (P : Primitives F) {acc : AccountAccumulator} {i : Nat}
    {leaf : Hex} {bytes : Bytes} (hleaf : hexToBytes leaf = some bytes)
    (h : acc[i]? = some bytes) :
    ∃ proof, acc.proofHex P i = some proof ∧
      verifyInclusion P (acc.rootHex P) leaf i acc.length proof = some true := by
  obtain ⟨proof, hproof, hverify⟩ := verifyMerkleProof_merkleProof P h
  refine ⟨proof.map bytesToHex, ?_, ?_⟩
  · rw [AccountAccumulator.proofHex, hproof, Option.map_some]
  · rw [AccountAccumulator.rootHex, verifyInclusion, hexToBytes_bytesToHex, hleaf,
      mapM_hexToBytes, ← hverify]

end NeuronWeb
