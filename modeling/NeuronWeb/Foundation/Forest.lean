import Mathlib.Data.List.Nodup
import Mathlib.Data.List.Perm.Subperm

set_option autoImplicit false

/-!
# Forests

A partition that only ever gets coarser is kept as a forest: each element points at a parent,
and a root points at itself. Two elements are in one part when they have one root. `Represents p
R` says that the parts are what a relation `R` connects.
-/

namespace NeuronWeb.Forest

variable {K : Type}

/-- `r` is the root of `x`, `n` steps above it. -/
inductive RootAt (p : K → K) : Nat → K → K → Prop
  | root {r : K} : p r = r → RootAt p 0 r r
  | step {n : Nat} {x r : K} : p x ≠ x → RootAt p n (p x) r → RootAt p (n + 1) x r

/-- Every element has a root. -/
def HasRoots (p : K → K) : Prop := ∀ x, ∃ n r, RootAt p n x r

/-- The two elements have one root. -/
def SameTree (p : K → K) (x y : K) : Prop := ∃ n m r, RootAt p n x r ∧ RootAt p m y r

section Roots

variable {p : K → K} {n m : Nat} {x y r s : K}

theorem RootAt.isRoot (h : RootAt p n x r) : p r = r := by
  induction h with
  | root hr => exact hr
  | step _ _ ih => exact ih

theorem RootAt.unique (h : RootAt p n x r) :
    ∀ {m : Nat} {s : K}, RootAt p m x s → n = m ∧ r = s := by
  induction h with
  | root hr =>
    intro m s h'
    cases h' with
    | root => exact ⟨rfl, rfl⟩
    | step hne => exact absurd hr hne
  | step hne _ ih =>
    intro m s h'
    cases h' with
    | root hr => exact absurd hr hne
    | step _ h'' =>
      obtain ⟨hn, hs⟩ := ih h''
      exact ⟨congrArg Nat.succ hn, hs⟩

/-- The elements on the way to a root are different: they are at different heights. -/
theorem RootAt.path (h : RootAt p n x r) {S : List K} (hS : ∀ y ∈ S, p y ∈ S) (hx : x ∈ S) :
    ∃ path : List K, path.length = n + 1 ∧ path.Nodup ∧
      ∀ y ∈ path, y ∈ S ∧ ∃ k ≤ n, RootAt p k y r := by
  induction h with
  | @root r hr =>
    refine ⟨[r], rfl, List.nodup_singleton r, ?_⟩
    intro y hy
    rw [List.mem_singleton.mp hy]
    exact ⟨hx, 0, Nat.le_refl 0, .root hr⟩
  | @step n x r hne hroot ih =>
    obtain ⟨path, hlen, hnodup, hpath⟩ := ih (hS x hx)
    refine ⟨x :: path, congrArg Nat.succ hlen, List.nodup_cons.mpr ⟨?_, hnodup⟩, ?_⟩
    · intro hmem
      obtain ⟨-, k, hk, hroot'⟩ := hpath x hmem
      have hheight := ((RootAt.step hne hroot).unique hroot').1
      omega
    · intro y hy
      rcases List.mem_cons.mp hy with rfl | hy
      · exact ⟨hx, n + 1, Nat.le_refl _, .step hne hroot⟩
      · obtain ⟨hyS, k, hk, hroot'⟩ := hpath y hy
        exact ⟨hyS, k, Nat.le_succ_of_le hk, hroot'⟩

theorem RootAt.lt_length (h : RootAt p n x r) {S : List K} (hS : ∀ y ∈ S, p y ∈ S)
    (hx : x ∈ S) : n < S.length := by
  obtain ⟨path, hlen, hnodup, hpath⟩ := h.path hS hx
  have hsub : path.Subperm S := hnodup.subperm fun y hy => (hpath y hy).1
  have := hsub.length_le
  omega

/-- Pointing an element at its root changes no root. -/
theorem rootAt_compress [DecidableEq K] (hx : RootAt p n x r) (hne : p x ≠ x)
    (hy : RootAt p m y s) :
    ∃ k, RootAt (Function.update p x r) k y s := by
  have hrx : r ≠ x := by
    rintro rfl
    exact hne hx.isRoot
  have hr : RootAt (Function.update p x r) 0 r r :=
    .root (by rw [Function.update_of_ne hrx, hx.isRoot])
  induction hy with
  | @root s hs =>
    have hsx : s ≠ x := by
      rintro rfl
      exact hne hs
    exact ⟨0, .root (by rw [Function.update_of_ne hsx, hs])⟩
  | @step m y s hstep hroot ih =>
    by_cases hyx : y = x
    · subst hyx
      obtain ⟨-, rfl⟩ := hx.unique (.step hstep hroot)
      refine ⟨1, .step ?_ ?_⟩
      · rw [Function.update_self]
        exact hrx
      · rw [Function.update_self]
        exact hr
    · obtain ⟨k, hk⟩ := ih
      refine ⟨k + 1, .step ?_ ?_⟩
      · rwa [Function.update_of_ne hyx]
      · rwa [Function.update_of_ne hyx]

/-- Pointing a root at another one moves its tree there, and no other. -/
theorem rootAt_link [DecidableEq K] {a b : K} (ha : p a = a) (hb : p b = b) (hab : a ≠ b)
    (hy : RootAt p m y s) :
    ∃ k, RootAt (Function.update p a b) k y (if s = a then b else s) := by
  have hroot_b : RootAt (Function.update p a b) 0 b b :=
    .root (by rw [Function.update_of_ne hab.symm, hb])
  induction hy with
  | @root s hs =>
    by_cases hsa : s = a
    · subst hsa
      rw [if_pos rfl]
      refine ⟨1, .step ?_ ?_⟩
      · rw [Function.update_self]
        exact hab.symm
      · rw [Function.update_self]
        exact hroot_b
    · rw [if_neg hsa]
      exact ⟨0, .root (by rw [Function.update_of_ne hsa, hs])⟩
  | @step m y s hstep _ ih =>
    have hya : y ≠ a := by
      rintro rfl
      exact hstep ha
    obtain ⟨k, hk⟩ := ih
    refine ⟨k + 1, .step ?_ ?_⟩
    · rwa [Function.update_of_ne hya]
    · rwa [Function.update_of_ne hya]

end Roots

/-! ## What a forest represents -/

/-- The trees are the parts that `R` connects. -/
structure Represents (p : K → K) (R : K → K → Prop) : Prop where
  hasRoots : HasRoots p
  sameTree_iff : ∀ x y, SameTree p x y ↔ Relation.EqvGen R x y

section Represents

variable {p q : K → K} {R : K → K → Prop}

theorem SameTree.root_eq {n m : Nat} {x y r s : K} (h : SameTree p x y) (hx : RootAt p n x r)
    (hy : RootAt p m y s) : r = s := by
  obtain ⟨n', m', t, hx', hy'⟩ := h
  rw [(hx.unique hx').2, (hy.unique hy').2]

theorem SameTree.symm {x y : K} (h : SameTree p x y) : SameTree p y x := by
  obtain ⟨n, m, r, hx, hy⟩ := h
  exact ⟨m, n, r, hy, hx⟩

theorem SameTree.trans {x y z : K} (hxy : SameTree p x y) (hyz : SameTree p y z) :
    SameTree p x z := by
  obtain ⟨n, m, r, hx, hy⟩ := hxy
  obtain ⟨n', m', s, hy', hz⟩ := hyz
  exact ⟨n, m', r, hx, (hy.unique hy').2 ▸ hz⟩

theorem HasRoots.sameTree_of_eqvGen (hp : HasRoots p) (h : ∀ x y, R x y → SameTree p x y) {x y : K}
    (hxy : Relation.EqvGen R x y) : SameTree p x y := by
  induction hxy with
  | rel x y hrel => exact h x y hrel
  | refl x =>
    obtain ⟨n, r, hx⟩ := hp x
    exact ⟨n, n, r, hx, hx⟩
  | symm _ _ _ ih => exact ih.symm
  | trans _ _ _ _ _ ih₁ ih₂ => exact ih₁.trans ih₂

theorem represents_id : Represents (id : K → K) fun _ _ => False where
  hasRoots x := ⟨0, x, .root rfl⟩
  sameTree_iff x y := by
    constructor
    · intro h
      have heq : x = y := h.root_eq (.root rfl) (.root rfl)
      exact heq ▸ .refl x
    · exact HasRoots.sameTree_of_eqvGen (fun x => ⟨0, x, .root rfl⟩) fun _ _ hrel => hrel.elim

theorem Represents.congr {R' : K → K → Prop} (h : Represents p R)
    (hR : ∀ x y, Relation.EqvGen R x y ↔ Relation.EqvGen R' x y) : Represents p R' :=
  ⟨h.hasRoots, fun x y => (h.sameTree_iff x y).trans (hR x y)⟩

/-- A forest with the same roots represents the same relation. -/
theorem Represents.of_roots (h : Represents p R)
    (hroots : ∀ {m y s}, RootAt p m y s → ∃ k, RootAt q k y s) : Represents q R where
  hasRoots x := by
    obtain ⟨n, r, hx⟩ := h.hasRoots x
    obtain ⟨k, hk⟩ := hroots hx
    exact ⟨k, r, hk⟩
  sameTree_iff x y := by
    rw [← h.sameTree_iff]
    obtain ⟨n, r, hx⟩ := h.hasRoots x
    obtain ⟨m, s, hy⟩ := h.hasRoots y
    obtain ⟨k, hx'⟩ := hroots hx
    obtain ⟨l, hy'⟩ := hroots hy
    constructor
    · intro hsame
      have hrs := hsame.root_eq hx' hy'
      exact ⟨n, m, r, hx, hrs ▸ hy⟩
    · intro hsame
      have hrs := hsame.root_eq hx hy
      exact ⟨k, l, r, hx', hrs ▸ hy'⟩

theorem eqvGen_of_rel {S : K → K → Prop} (h : ∀ x y, R x y → Relation.EqvGen S x y) {x y : K}
    (hxy : Relation.EqvGen R x y) : Relation.EqvGen S x y := by
  induction hxy with
  | rel x y hrel => exact h x y hrel
  | refl x => exact .refl x
  | symm x y _ ih => exact ih.symm x y
  | trans x y z _ _ ih₁ ih₂ => exact ih₁.trans x y z ih₂

/-- `R` with one more pair. -/
def addPair (R : K → K → Prop) (x y : K) : K → K → Prop := fun u v => R u v ∨ (u = x ∧ v = y)

theorem eqvGen_addPair_of {x y u v : K} (h : Relation.EqvGen R u v) :
    Relation.EqvGen (addPair R x y) u v :=
  h.mono fun _ _ hrel => Or.inl hrel

theorem Represents.addPair_of_sameTree {x y : K} (h : Represents p R) (hxy : SameTree p x y) :
    Represents p (addPair R x y) := by
  refine h.congr fun u v => ⟨eqvGen_addPair_of, eqvGen_of_rel ?_⟩
  rintro u v (hrel | ⟨rfl, rfl⟩)
  · exact .rel u v hrel
  · exact (h.sameTree_iff u v).mp hxy

/-- Pointing the root of `x` at the root of `y` connects the two. -/
theorem Represents.link [DecidableEq K] {n m : Nat} {x y a b : K} (h : Represents p R)
    (hx : RootAt p n x a) (hy : RootAt p m y b) (hab : a ≠ b) :
    Represents (Function.update p a b) (addPair R x y) := by
  have hroot : ∀ u, ∃ k l s, RootAt p k u s ∧
      RootAt (Function.update p a b) l u (if s = a then b else s) := by
    intro u
    obtain ⟨k, s, hu⟩ := h.hasRoots u
    obtain ⟨l, hl⟩ := rootAt_link hx.isRoot hy.isRoot hab hu
    exact ⟨k, l, s, hu, hl⟩
  have hroots : HasRoots (Function.update p a b) := by
    intro u
    obtain ⟨k, l, s, -, hu⟩ := hroot u
    exact ⟨l, _, hu⟩
  refine ⟨hroots, fun u v => ⟨fun huv => ?_, fun huv => ?_⟩⟩
  · obtain ⟨k, l, s, hu, hu'⟩ := hroot u
    obtain ⟨k', l', t, hv, hv'⟩ := hroot v
    have hst := huv.root_eq hu' hv'
    have hconn : ∀ {w z c : K} {i j : Nat}, RootAt p i w c → RootAt p j z c →
        Relation.EqvGen (addPair R x y) w z := fun hw hz =>
      eqvGen_addPair_of ((h.sameTree_iff _ _).mp ⟨_, _, _, hw, hz⟩)
    have hpair : Relation.EqvGen (addPair R x y) x y := .rel x y (Or.inr ⟨rfl, rfl⟩)
    by_cases hs : s = a
    · subst hs
      rw [if_pos rfl] at hst
      by_cases ht : t = s
      · subst ht
        exact hconn hu hv
      · rw [if_neg ht] at hst
        subst hst
        exact ((hconn hu hx).trans _ _ _ hpair).trans _ _ _ (hconn hy hv)
    · rw [if_neg hs] at hst
      by_cases ht : t = a
      · subst ht
        rw [if_pos rfl] at hst
        subst hst
        exact ((hconn hu hy).trans _ _ _ (hpair.symm _ _)).trans _ _ _ (hconn hx hv)
      · rw [if_neg ht] at hst
        subst hst
        exact hconn hu hv
  · refine HasRoots.sameTree_of_eqvGen hroots (fun u v hrel => ?_) huv
    obtain ⟨k, l, s, hu, hu'⟩ := hroot u
    obtain ⟨k', l', t, hv, hv'⟩ := hroot v
    rcases hrel with hrel | ⟨rfl, rfl⟩
    · have hst : s = t := ((h.sameTree_iff u v).mpr (.rel u v hrel)).root_eq hu hv
      subst hst
      exact ⟨l, l', _, hu', hv'⟩
    · have hsa : s = a := (hu.unique hx).2
      have htb : t = b := (hv.unique hy).2
      rw [if_pos hsa] at hu'
      rw [htb, if_neg hab.symm] at hv'
      exact ⟨l, l', b, hu', hv'⟩

end Represents

end NeuronWeb.Forest
