/-
  Core/InclusionBinding: only the leaf itself verifies at its place.

  The hash is collision-free on what two computations feed it: `merkleRoot` over the leaves
  (`rootInputs`) and the verifier on a leaf and a path that somebody sent (`verifierInputs`).
  Nothing is assumed about the path: its entries may have any length and any number.
-/
import NeuronWeb.Core.WordAccumulator
import NeuronWeb.Foundation.AuditBinding

set_option autoImplicit false

namespace NeuronWeb

open AuditPath

variable {F : Type}

/-! ## What is hashed -/

/-- What `nodeHash` feeds the hash. -/
def nodeInput (left right : Bytes) : Bytes := 0x01 :: (left ++ right)

/-- What `leafHash` feeds the hash. -/
def leafInput (data : Bytes) : Bytes := 0x00 :: data

/-- What the recursion of `merkleRoot` feeds the hash. -/
def rootInputsFuel (P : Primitives F) : Nat → List Bytes → List Bytes
  | 0, _ => []
  | _ + 1, [] => [[]]
  | _ + 1, [leaf] => [leafInput leaf]
  | fuel + 1, leaves =>
    let k := splitPoint leaves.length
    nodeInput (merkleRoot P (leaves.take k)) (merkleRoot P (leaves.drop k)) ::
      (rootInputsFuel P fuel (leaves.take k) ++ rootInputsFuel P fuel (leaves.drop k))

/-- What `merkleRoot(leaves)` feeds the hash. -/
def rootInputs (P : Primitives F) (leaves : List Bytes) : List Bytes :=
  rootInputsFuel P (leaves.length + 1) leaves

/-- What the loop of `verifyMerkleProof` feeds the hash. -/
def pathInputs (P : Primitives F) : List Bytes → Nat → Nat → Bytes → List Bytes
  | [], _, _, _ => []
  | p :: rest, fn, sn, r =>
    if sn = 0 then []
    else if fn % 2 = 1 ∨ fn = sn then
      let (fn', sn') := if fn % 2 = 0 then shiftCounters (fn + 1) fn sn else (fn, sn)
      nodeInput p r :: pathInputs P rest (fn' / 2) (sn' / 2) (nodeHash P p r)
    else nodeInput r p :: pathInputs P rest (fn / 2) (sn / 2) (nodeHash P r p)

/-- What `verifyMerkleProof` feeds the hash. -/
def verifierInputs (P : Primitives F) (leaf : Bytes) (index treeSize : Nat)
    (proof : List Bytes) : List Bytes :=
  leafInput leaf :: pathInputs P proof index (treeSize - 1) (leafHash P leaf)

variable {P : Primitives F}

theorem pathInputs_eq_climbPairs (path : List Bytes) (fn sn : Nat) (r : Bytes) :
    pathInputs P path fn sn r =
      (climbPairs (nodeHash P) (fun fn sn => shiftCounters (fn + 1) fn sn) path fn sn r).map
        fun e => nodeInput e.1 e.2 := by
  induction path generalizing fn sn r with
  | nil => rfl
  | cons p path ih =>
    by_cases hzero : sn = 0
    · rw [pathInputs, climbPairs, if_pos hzero, if_pos hzero, List.map_nil]
    rw [pathInputs, if_neg hzero, climbPairs_cons hzero, List.map_cons, ← ih, levelUp, pairAt]
    by_cases hside : fn % 2 = 1 ∨ fn = sn
    · rw [if_pos hside, if_pos hside]
      by_cases heven : fn % 2 = 0
      · have heq : fn = sn := hside.resolve_left (by omega)
        rw [if_pos heven, if_pos ⟨heven, heq⟩]
      · rw [if_neg heven, if_neg fun hboth => heven hboth.1]
    · have hcounters : ¬ (fn % 2 = 0 ∧ fn = sn) := fun hboth => hside (.inr hboth.2)
      rw [if_neg hside, if_neg hside, if_neg hcounters]

theorem rootInputsFuel_node {leaves : List Bytes} (h : 1 < leaves.length) (fuel : Nat) :
    rootInputsFuel P (fuel + 1) leaves =
      nodeInput (merkleRoot P (leaves.take (splitPoint leaves.length)))
          (merkleRoot P (leaves.drop (splitPoint leaves.length))) ::
        (rootInputsFuel P fuel (leaves.take (splitPoint leaves.length)) ++
          rootInputsFuel P fuel (leaves.drop (splitPoint leaves.length))) := by
  match leaves, h with
  | _ :: _ :: _, _ => rfl

/-! ## The tree feeds what the root feeds -/

/-- A tree of the leaves, with its nodes among what `merkleRoot` hashes. -/
structure HashedTreeOf (P : Primitives F) (leaves : List Bytes) (t : HashTree Bytes) : Prop
    extends TreeOf P leaves t where
  nodes : ∀ fuel, leaves.length ≤ fuel → ∀ e ∈ t.pairs (nodeHash P),
    nodeInput e.1 e.2 ∈ rootInputsFuel P fuel leaves
  data : ∀ fuel, leaves.length ≤ fuel → ∀ leaf ∈ leaves,
    leafInput leaf ∈ rootInputsFuel P fuel leaves

theorem exists_hashedTree (P : Primitives F) {leaves : List Bytes} (h : leaves ≠ []) :
    ∃ t, HashedTreeOf P leaves t := by
  refine leaves_induction (motive := fun leaves => ∃ t, HashedTreeOf P leaves t) ?_ ?_ h
  · intro leaf
    refine ⟨_, treeOf_leaf leaf, fun _ _ _ he => absurd he List.not_mem_nil, ?_⟩
    intro fuel hfuel x hx
    obtain ⟨fuel, rfl⟩ := Nat.exists_eq_succ_of_ne_zero (show fuel ≠ 0 by simp at hfuel; omega)
    rw [List.mem_singleton.mp hx]
    exact List.mem_singleton_self _
  · rintro leaves hlong ⟨left, hleft⟩ ⟨right, hright⟩
    obtain ⟨htake, hdrop⟩ := length_parts hlong
    refine ⟨_, treeOf_node hlong hleft.toTreeOf hright.toTreeOf, ?_, ?_⟩
    · intro fuel hfuel e he
      obtain ⟨fuel, rfl⟩ := Nat.exists_eq_succ_of_ne_zero (show fuel ≠ 0 by omega)
      rw [Nat.succ_eq_add_one, rootInputsFuel_node hlong]
      rw [HashTree.pairs, List.mem_cons, List.mem_append, hleft.root, hright.root] at he
      rw [List.mem_cons, List.mem_append]
      rcases he with rfl | he | he
      · exact .inl rfl
      · exact .inr (.inl (hleft.nodes fuel (by omega) e he))
      · exact .inr (.inr (hright.nodes fuel (by omega) e he))
    · intro fuel hfuel leaf hleaf
      obtain ⟨fuel, rfl⟩ := Nat.exists_eq_succ_of_ne_zero (show fuel ≠ 0 by omega)
      rw [Nat.succ_eq_add_one, rootInputsFuel_node hlong, List.mem_cons, List.mem_append]
      rw [← List.take_append_drop (splitPoint leaves.length) leaves, List.mem_append] at hleaf
      rcases hleaf with hleaf | hleaf
      · exact .inr (.inl (hleft.data fuel (by omega) leaf hleaf))
      · exact .inr (.inr (hright.data fuel (by omega) leaf hleaf))

/-! ## Halves of a node -/

section Halves

variable {size : Nat}

section

variable (hsize : ∀ b, (P.sha256 b).length = size)
include hsize

theorem hash_mem_climbPair
    {drop : Nat → Nat → Nat × Nat} {path : List Bytes} {fn sn : Nat} {r : Bytes}
    (hr : r.length = size) {e : Bytes × Bytes}
    (he : e ∈ climbPairs (nodeHash P) drop path fn sn r) :
    e.1.length = size ∨ e.2.length = size := by
  induction path generalizing fn sn r with
  | nil => cases he
  | cons p rest ih =>
    by_cases hzero : sn = 0
    · rw [climbPairs, if_pos hzero] at he
      cases he
    rw [climbPairs_cons hzero] at he
    rcases List.mem_cons.mp he with rfl | he
    · unfold pairAt
      split
      · exact .inr hr
      · exact .inl hr
    · exact ih (hsize _) he

theorem length_root {t : HashTree Bytes}
    (hleaves : ∀ x ∈ t.leaves, x.length = size) : (t.root (nodeHash P)).length = size := by
  cases t with
  | leaf value => exact hleaves value (List.mem_singleton_self value)
  | node left right => exact hsize _

theorem hashes_of_mem_pairs {t : HashTree Bytes}
    (hleaves : ∀ x ∈ t.leaves, x.length = size) {e : Bytes × Bytes}
    (he : e ∈ t.pairs (nodeHash P)) : e.1.length = size ∧ e.2.length = size := by
  induction t with
  | leaf value => cases he
  | node left right ihLeft ihRight =>
    rw [HashTree.leaves] at hleaves
    have hleft : ∀ x ∈ left.leaves, x.length = size := fun x hx =>
      hleaves x (List.mem_append_left _ hx)
    have hright : ∀ x ∈ right.leaves, x.length = size := fun x hx =>
      hleaves x (List.mem_append_right _ hx)
    rw [HashTree.pairs, List.mem_cons, List.mem_append] at he
    rcases he with rfl | he | he
    · exact ⟨length_root hsize hleft, length_root hsize hright⟩
    · exact ihLeft hleft he
    · exact ihRight hright he

end

theorem append_inj_of_hash {e e' : Bytes × Bytes} (h : e.1.length = size ∨ e.2.length = size)
    (h' : e'.1.length = size ∧ e'.2.length = size) (heq : e.1 ++ e.2 = e'.1 ++ e'.2) : e = e' := by
  have hlengths := congrArg List.length heq
  rw [List.length_append, List.length_append] at hlengths
  have hfirst : e.1.length = e'.1.length := by
    rcases h with h | h <;> omega
  exact Prod.ext (List.append_inj_left heq hfirst) (List.append_inj_right heq hfirst)

end Halves

/-! ## Soundness -/

/-- What verifies at the place of a leaf over whole numbers is the leaf. -/
theorem eq_leaf_of_verify {size : Nat} (hsize : ∀ b, (P.sha256 b).length = size)
    {leaves : List Bytes} {i : Nat} (hi : i < leaves.length) {x : Bytes} {proof : List Bytes}
    (hfree : Set.InjOn P.sha256
      {b | b ∈ rootInputs P leaves ∨ b ∈ verifierInputs P x i leaves.length proof})
    (h : verifyMerkleProof P (merkleRoot P leaves) x i leaves.length proof = true) :
    x = leaves[i] := by
  obtain ⟨t, ht⟩ := exists_hashedTree P (List.ne_nil_of_length_pos (by omega : 0 < leaves.length))
  have hleafInput : leafInput leaves[i] ∈ rootInputs P leaves :=
    ht.data _ (Nat.le_succ _) _ (List.getElem_mem hi)
  -- it is enough that the two leaves have the same hash
  suffices hhash : leafHash P x = leafHash P leaves[i] by
    have hinput := hfree (.inr List.mem_cons_self) (.inl hleafInput) hhash
    exact (List.cons.inj hinput).2
  rw [verifyMerkleProof, if_neg (by omega)] at h
  by_cases hone : leaves.length = 1
  · obtain ⟨leaf, rfl⟩ := List.length_eq_one_iff.mp hone
    rw [if_pos (by simp), Bool.and_eq_true, beq_iff_eq] at h
    have hzero : i = 0 := by simpa using hi
    subst hzero
    exact h.2
  · rw [if_neg (by omega), Int.toNat_natCast, Int.toNat_natCast, foldAuditPath_eq_climb] at h
    have hclimb : climb (nodeHash P) (fun fn sn => shiftCounters (fn + 1) fn sn) proof i
        (t.size - 1) (leafHash P x) = some (0, t.root (nodeHash P)) := by
      rw [ht.size, ht.root]
      split at h
      case h_1 sn r hend =>
        rw [Bool.and_eq_true, beq_iff_eq, beq_iff_eq] at h
        rw [hend, h.1, h.2]
      case h_2 => cases h
    have hvalue : t.leaves[i]? = some (leafHash P leaves[i]) := by
      rw [ht.values, List.getElem?_map, List.getElem?_eq_getElem hi, Option.map_some]
    have hhashes : ∀ value ∈ t.leaves, value.length = size := by
      rw [ht.values]
      intro value hvalue
      obtain ⟨leaf, _, rfl⟩ := List.mem_map.mp hvalue
      exact hsize _
    refine (climb_sound dropsZeros_shiftCounters ht.ragged hvalue hclimb ?_).2
    intro e he e' he' hnodes
    have hinput : nodeInput e.1 e.2 = nodeInput e'.1 e'.2 := by
      refine hfree (.inr (List.mem_cons_of_mem _ ?_)) (.inl (ht.nodes _ (Nat.le_succ _) e' he'))
        hnodes
      rw [pathInputs_eq_climbPairs, ← ht.size]
      exact List.mem_map.mpr ⟨e, he, rfl⟩
    exact append_inj_of_hash (hash_mem_climbPair hsize (hsize _) he)
      (hashes_of_mem_pairs hsize hhashes he') (List.cons.inj hinput).2

/-- Whatever path comes with it: what `verifyMerkleProof` accepts against `merkleRoot` at the
place of a leaf is the leaf, unless two inputs of the two computations collide. -/
theorem merkle_sound (P : Primitives F) (hsize : ∀ b, (P.sha256 b).length = 32)
    {leaves : List Bytes} (hlength : leaves.length < 2 ^ 31) {i : Nat} (hi : i < leaves.length)
    {x : Bytes} {proof : List Bytes}
    (hfree : Set.InjOn P.sha256
      {b | b ∈ rootInputs P leaves ∨ b ∈ verifierInputs P x i leaves.length proof})
    {fuel fuel' : Nat} {root : Bytes} (hroot : merkleRoot32 P fuel leaves = some root)
    (hverify : verifyMerkleProof32 P fuel' root x i leaves.length proof = some true) :
    x = leaves[i] := by
  obtain ⟨_, rfl⟩ := merkleRoot32_some hroot
  exact eq_leaf_of_verify hsize hi hfree (verifyMerkleProof32_some hlength hverify).symm

namespace Sample

/-- The sample primitives with a checksum of the length of a SHA-256 hash. -/
def wide : Primitives Rat :=
  { primitives with sha256 := fun b => digest b ++ List.replicate 28 0 }

/-- Three leaves, of which the last one climbs over a shorter path. -/
def threeLeaves : List Bytes := [[1], [2], [3]]

def lastPath : List Bytes := [nodeHash wide (leafHash wide [1]) (leafHash wide [2])]

theorem injOn_threeLeaves : Set.InjOn wide.sha256
    {b | b ∈ rootInputs wide threeLeaves ∨
      b ∈ verifierInputs wide [3] 2 threeLeaves.length lastPath} := by
  have hfree : ∀ a ∈ rootInputs wide threeLeaves ++ verifierInputs wide [3] 2 3 lastPath,
      ∀ b ∈ rootInputs wide threeLeaves ++ verifierInputs wide [3] 2 3 lastPath,
        wide.sha256 a = wide.sha256 b → a = b := by decide +kernel
  intro a ha b hb
  exact hfree a (List.mem_append.mpr ha) b (List.mem_append.mpr hb)

end Sample

/-- The last of three leaves with its one sibling. -/
theorem merkle_sound_three : ([3] : Bytes) = Sample.threeLeaves[2] := by
  have hroot : merkleRoot32 Sample.wide 40 Sample.threeLeaves =
      some (merkleRoot Sample.wide Sample.threeLeaves) :=
    merkleRoot32_eq (by decide) (by decide)
  have hverify : verifyMerkleProof32 Sample.wide 40 (merkleRoot Sample.wide Sample.threeLeaves)
      [3] (2 : Nat) Sample.threeLeaves.length Sample.lastPath = some true := by
    rw [verifyMerkleProof32_eq (by decide) (by decide)]
    decide +kernel
  exact merkle_sound Sample.wide (fun _ => rfl) (by decide) (by decide)
    Sample.injOn_threeLeaves hroot hverify

end NeuronWeb
