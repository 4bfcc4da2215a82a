/-
  Foundation/AuditBinding: a climb that reaches the root of a tree is the climb of its leaf.

  Which side a sibling stands on, and where the climb ends, depends on the two counters and on
  the length of the path alone. So a climb with any siblings at all that reaches the root takes
  as many steps as the one with the tree's own, and from the root down each pair that it hashes
  is the pair of the tree (`climb_sound`), as long as no two of the pairs collide.
-/
import NeuronWeb.Foundation.AuditPath

set_option autoImplicit false

namespace NeuronWeb.AuditPath

variable {β : Type}

/-! ## One step -/

/-- The children of the node that a step computes: the sibling stands on its side. -/
def pairAt (fn sn : Nat) (p r : β) : β × β := if fn % 2 = 1 ∨ fn = sn then (p, r) else (r, p)

/-- The counters one level up. -/
def levelUp (drop : Nat → Nat → Nat × Nat) (fn sn : Nat) : Nat × Nat :=
  let (fn', sn') := if fn % 2 = 0 ∧ fn = sn then drop fn sn else (fn, sn)
  (fn' / 2, sn' / 2)

/-- The pairs that a climb hashes, the lowest first. -/
def climbPairs (hash : β → β → β) (drop : Nat → Nat → Nat × Nat) :
    List β → Nat → Nat → β → List (β × β)
  | [], _, _, _ => []
  | p :: rest, fn, sn, r =>
    if sn = 0 then []
    else
      let e := pairAt fn sn p r
      let up := levelUp drop fn sn
      e :: climbPairs hash drop rest up.1 up.2 (hash e.1 e.2)

variable {hash : β → β → β} {drop : Nat → Nat → Nat × Nat}

/-- A climb goes on with the node that its first step computes. -/
theorem climb_cons {sn : Nat} (h : sn ≠ 0) (rest : List β) (fn : Nat) (p r : β) :
    climb hash drop (p :: rest) fn sn r =
      climb hash drop rest (levelUp drop fn sn).1 (levelUp drop fn sn).2
        (hash (pairAt fn sn p r).1 (pairAt fn sn p r).2) := by
  rw [climb, if_neg h, pairAt, levelUp]
  by_cases hside : fn % 2 = 1 ∨ fn = sn
  · rw [if_pos hside, if_pos hside]
    by_cases heven : fn % 2 = 0
    · have heq : fn = sn := hside.resolve_left (by omega)
      rw [if_pos heven, if_pos ⟨heven, heq⟩]
    · rw [if_neg heven, if_neg fun hboth => heven hboth.1]
  · have hcounters : ¬ (fn % 2 = 0 ∧ fn = sn) := fun hboth => hside (.inr hboth.2)
    rw [if_neg hside, if_neg hside, if_neg hcounters]

theorem climbPairs_cons {sn : Nat} (h : sn ≠ 0) (rest : List β) (fn : Nat) (p r : β) :
    climbPairs hash drop (p :: rest) fn sn r =
      pairAt fn sn p r ::
        climbPairs hash drop rest (levelUp drop fn sn).1 (levelUp drop fn sn).2
          (hash (pairAt fn sn p r).1 (pairAt fn sn p r).2) := by
  rw [climbPairs, if_neg h]

theorem pairAt_inj {fn sn : Nat} {p q r r' : β} (h : pairAt fn sn p r = pairAt fn sn q r') :
    p = q ∧ r = r' := by
  unfold pairAt at h
  split at h
  · exact Prod.mk.inj h
  · exact (Prod.mk.inj h).symm

theorem ne_zero_of_climb {rest : List β} {fn sn : Nat} {p r : β} {out : Nat × β}
    (h : climb hash drop (p :: rest) fn sn r = some out) : sn ≠ 0 := by
  rintro rfl
  rw [climb, if_pos rfl] at h
  cases h

/-! ## Two climbs to one root -/

/-- Two climbs from one place to one value are the same, unless two of their pairs collide. -/
theorem climb_unique {path path' : List β} {fn sn : Nat} {r r' v : β}
    (h : climb hash drop path fn sn r = some (0, v))
    (h' : climb hash drop path' fn sn r' = some (0, v))
    (hinj : ∀ e ∈ climbPairs hash drop path fn sn r, ∀ e' ∈ climbPairs hash drop path' fn sn r',
      hash e.1 e.2 = hash e'.1 e'.2 → e = e') : path = path' ∧ r = r' := by
  induction path generalizing path' fn sn r r' with
  | nil =>
    obtain ⟨rfl, rfl⟩ : sn = 0 ∧ r = v := by simpa [climb] using h
    cases path' with
    | nil =>
      have heq : r' = r := by simpa [climb] using h'
      exact ⟨rfl, heq.symm⟩
    | cons q rest' => exact absurd rfl (ne_zero_of_climb h')
  | cons p rest ih =>
    have hzero := ne_zero_of_climb h
    cases path' with
    | nil =>
      have hend : sn = 0 ∧ r' = v := by simpa [climb] using h'
      exact absurd hend.1 hzero
    | cons q rest' =>
      rw [climb_cons hzero] at h h'
      rw [climbPairs_cons hzero, climbPairs_cons hzero] at hinj
      obtain ⟨hrest, hnode⟩ := ih h h' fun e he e' he' =>
        hinj e (List.mem_cons_of_mem _ he) e' (List.mem_cons_of_mem _ he')
      have hpair := hinj _ List.mem_cons_self _ List.mem_cons_self hnode
      obtain ⟨hp, hr⟩ := pairAt_inj hpair
      exact ⟨by rw [hp, hrest], hr⟩

/-! ## The pairs of a tree -/

namespace HashTree

/-- The pairs that the inner nodes hash. -/
def pairs (hash : β → β → β) : HashTree β → List (β × β)
  | leaf _ => []
  | node left right =>
    (left.root hash, right.root hash) :: (left.pairs hash ++ right.pairs hash)

/-- The tree with an empty record at each leaf. -/
def record : HashTree β → HashTree (β × List (β × β))
  | leaf value => leaf (value, [])
  | node left right => node left.record right.record

end HashTree

/-- Hash, and keep a record of the pairs hashed below. -/
def recording (hash : β → β → β) (a b : β × List (β × β)) : β × List (β × β) :=
  (hash a.1 b.1, (a.1, b.1) :: (a.2 ++ b.2))

namespace HashTree

theorem root_record (hash : β → β → β) (t : HashTree β) :
    t.record.root (recording hash) = (t.root hash, t.pairs hash) := by
  induction t with
  | leaf value => rfl
  | node left right ihLeft ihRight =>
    rw [record, root, ihLeft, ihRight, recording, root, pairs]

theorem size_record (t : HashTree β) : t.record.size = t.size := by
  induction t with
  | leaf value => rfl
  | node left right ihLeft ihRight => rw [record, size, ihLeft, ihRight, size]

theorem leaves_record (t : HashTree β) : t.record.leaves = t.leaves.map fun x => (x, []) := by
  induction t with
  | leaf value => rfl
  | node left right ihLeft ihRight =>
    rw [record, leaves, ihLeft, ihRight, leaves, List.map_append]

theorem path_record (hash : β → β → β) (t : HashTree β) (i : Nat) :
    (t.record.path (recording hash) i).map Prod.fst = t.path hash i := by
  induction t generalizing i with
  | leaf value => rfl
  | node left right ihLeft ihRight =>
    rw [record, path, path, size_record]
    split
    · rw [List.map_append, ihLeft, List.map_singleton, root_record]
    · rw [List.map_append, ihRight, List.map_singleton, root_record]

theorem Perfect.record {h : Nat} {t : HashTree β} (ht : t.Perfect h) : t.record.Perfect h := by
  induction ht with
  | leaf value => exact .leaf _
  | node _ _ ihLeft ihRight => exact .node ihLeft ihRight

theorem Ragged.record {t : HashTree β} (ht : t.Ragged) : t.record.Ragged := by
  induction ht with
  | leaf value => exact .leaf _
  | node hleft _ hsize ih => exact .node hleft.record ih (by rwa [size_record])

end HashTree

/-- What a recording climb hashes stands in its record. -/
theorem climb_recording {path : List (β × List (β × β))} {fn sn m : Nat}
    {r out : β × List (β × β)} (h : climb (recording hash) drop path fn sn r = some (m, out)) :
    (∀ e ∈ r.2, e ∈ out.2) ∧
      ∀ e ∈ climbPairs hash drop (path.map Prod.fst) fn sn r.1, e ∈ out.2 := by
  induction path generalizing fn sn r with
  | nil =>
    obtain ⟨rfl, rfl⟩ : sn = m ∧ r = out := by simpa [climb] using h
    exact ⟨fun _ he => he, fun _ he => absurd he (List.not_mem_nil)⟩
  | cons p rest ih =>
    have hzero := ne_zero_of_climb h
    rw [climb_cons hzero] at h
    obtain ⟨hbelow, hpairs⟩ := ih h
    rw [List.map_cons, climbPairs_cons hzero]
    unfold pairAt recording at hbelow hpairs
    unfold pairAt
    by_cases hside : fn % 2 = 1 ∨ fn = sn
    · simp only [if_pos hside] at hbelow hpairs ⊢
      refine ⟨fun e he => ?_, fun e he => ?_⟩
      · exact hbelow e (List.mem_cons_of_mem _ (List.mem_append_right _ he))
      · rcases List.mem_cons.mp he with rfl | he
        · exact hbelow _ List.mem_cons_self
        · exact hpairs e he
    · simp only [if_neg hside] at hbelow hpairs ⊢
      refine ⟨fun e he => ?_, fun e he => ?_⟩
      · exact hbelow e (List.mem_cons_of_mem _ (List.mem_append_left _ he))
      · rcases List.mem_cons.mp he with rfl | he
        · exact hbelow _ List.mem_cons_self
        · exact hpairs e he

theorem climbPairs_path (hdrop : DropsZeros drop) {t : HashTree β} (ht : t.Ragged) {i : Nat}
    {x : β} (hx : t.leaves[i]? = some x) {e : β × β}
    (he : e ∈ climbPairs hash drop (t.path hash i) i (t.size - 1) x) : e ∈ t.pairs hash := by
  have hleaf : t.record.leaves[i]? = some (x, []) := by
    rw [HashTree.leaves_record, List.getElem?_map, hx, Option.map_some]
  have hclimb : climb (recording hash) drop (t.record.path (recording hash) i) i
      (t.record.size - 1) (x, []) = some (0, t.record.root (recording hash)) :=
    climb_path hdrop ht.record hleaf
  rw [HashTree.size_record, HashTree.root_record] at hclimb
  rw [← HashTree.path_record] at he
  exact (climb_recording hclimb).2 e he

/-- Whatever the siblings: a climb from the place of a leaf to the root starts at the value of
the leaf and has the leaf's path, unless one of its pairs collides with one of the tree. -/
theorem climb_sound (hdrop : DropsZeros drop) {t : HashTree β} (ht : t.Ragged) {i : Nat}
    {x r : β} (hx : t.leaves[i]? = some x) {path : List β}
    (h : climb hash drop path i (t.size - 1) r = some (0, t.root hash))
    (hinj : ∀ e ∈ climbPairs hash drop path i (t.size - 1) r, ∀ e' ∈ t.pairs hash,
      hash e.1 e.2 = hash e'.1 e'.2 → e = e') : path = t.path hash i ∧ r = x :=
  climb_unique h (climb_path hdrop ht hx) fun e he e' he' =>
    hinj e he e' (climbPairs_path hdrop ht hx he')

end NeuronWeb.AuditPath
