/-
  Content/FailureComponents: failure domains are connected components
  (`engine/content/failure-domain.ts`).

  `inferDomains` merges one pair of holders after another, so that its domains are what the
  merged pairs connect. The pairs of the sweep are all pairs that fail together, since a pair
  that does is groupable.
-/
import NeuronWeb.Content.ObservationHistory
import NeuronWeb.Foundation.Forest

set_option autoImplicit false

namespace NeuronWeb

open Forest

/-! ## The forest -/

namespace DomainForest

variable {m : DomainForest} {x y r : Hex} {n : Nat}

/-- The parent of an element; one that was never added is its own. -/
def parentOf (parent : DomainForest) (x : Hex) : Hex := (parent.get? x).getD x

/-- Every parent is an element. -/
def Grounded (parent : DomainForest) : Prop :=
  ∀ x y, parent.get? x = some y → parent.has y = true

theorem parentOf_set (m : DomainForest) (x r : Hex) :
    parentOf (m.set x r) = Function.update (parentOf m) x r := by
  funext y
  unfold parentOf
  rw [JsMap.get?_set]
  by_cases hxy : x = y
  · subst hxy
    rw [if_pos rfl, Function.update_self, Option.getD_some]
  · rw [if_neg hxy, Function.update_of_ne (Ne.symm hxy)]

theorem has_of_parentOf_ne (h : parentOf m x ≠ x) :
    m.has x = true ∧ m.get? x = some (parentOf m x) := by
  unfold parentOf at h ⊢
  cases hget : m.get? x with
  | none =>
    rw [hget] at h
    exact absurd rfl h
  | some y => exact ⟨by simp [JsMap.has, hget], rfl⟩

theorem Grounded.has_parentOf (hg : Grounded m) (hx : m.has x = true) :
    m.has (parentOf m x) = true := by
  by_cases h : parentOf m x = x
  · rwa [h]
  · exact hg x _ (has_of_parentOf_ne h).2

theorem Grounded.has_root (hg : Grounded m) (h : RootAt (parentOf m) n x r)
    (hx : m.has x = true) : m.has r = true := by
  induction h with
  | root _ => exact hx
  | step _ _ ih => exact ih (hg.has_parentOf hx)

theorem Grounded.set (hg : Grounded m) (hr : m.has r = true) : Grounded (m.set x r) := by
  intro y z hget
  rw [JsMap.has_set, Bool.or_eq_true]
  rw [JsMap.get?_set] at hget
  split at hget
  · cases hget
    exact Or.inr hr
  · exact Or.inr (hg y z hget)

theorem Grounded.height_le (hg : Grounded m) (h : RootAt (parentOf m) n x r) :
    n ≤ m.keys.length := by
  cases h with
  | root _ => exact Nat.zero_le _
  | step hne hroot =>
    have hclosed : ∀ y ∈ m.keys, parentOf m y ∈ m.keys := by
      intro y hy
      rw [JsMap.mem_keys_iff, ← JsMap.has_iff] at hy ⊢
      exact hg.has_parentOf hy
    have hx : x ∈ m.keys := by
      rw [JsMap.mem_keys_iff, ← JsMap.has_iff]
      exact (has_of_parentOf_ne hne).1
    exact ((RootAt.step hne hroot).lt_length hclosed hx).le

/-- A forest with shorter paths: it has the elements and the roots of the one before. -/
structure Shortens (m m' : DomainForest) : Prop where
  grounded : Grounded m'
  has : ∀ y, m.has y = true → m'.has y = true
  roots : ∀ {k y s}, RootAt (parentOf m) k y s → ∃ k', RootAt (parentOf m') k' y s

theorem root_spec (hg : Grounded m) : ∀ (fuel : Nat) {n : Nat} {x r : Hex},
    RootAt (parentOf m) n x r → n ≤ fuel →
    (root fuel m x).1 = r ∧ Shortens m (root fuel m x).2
  | 0, _, _, _, hroot, hn => by
    cases hroot with
    | root _ => exact ⟨rfl, hg, fun _ h => h, fun h => ⟨_, h⟩⟩
    | step _ _ => exact absurd hn (Nat.not_succ_le_zero _)
  | fuel + 1, _, x, r, hroot, hn => by
    cases hroot with
    | root hr =>
      have hself : root (fuel + 1) m x = (x, m) := if_pos hr
      rw [hself]
      exact ⟨rfl, hg, fun _ h => h, fun h => ⟨_, h⟩⟩
    | @step n _ _ hne hroot =>
      obtain ⟨hvalue, hshort⟩ := root_spec hg fuel hroot (Nat.le_of_succ_le_succ hn)
      have hstep : root (fuel + 1) m x =
          ((root fuel m (parentOf m x)).1,
            (root fuel m (parentOf m x)).2.set x (root fuel m (parentOf m x)).1) :=
        if_neg hne
      rw [hstep, hvalue]
      generalize (root fuel m (parentOf m x)).2 = m' at hshort
      obtain ⟨k, hx⟩ := hshort.roots (RootAt.step hne hroot)
      have hne' : parentOf m' x ≠ x := by
        intro hself
        obtain ⟨-, heq⟩ := hx.unique (.root hself)
        exact hne (heq ▸ hroot.isRoot)
      have hhas : m'.has r = true :=
        hshort.has r (hg.has_root (.step hne hroot) (has_of_parentOf_ne hne).1)
      refine ⟨rfl, hshort.grounded.set hhas, fun y hy => ?_, fun hy => ?_⟩
      · rw [JsMap.has_set, hshort.has y hy, Bool.or_true]
      · rw [parentOf_set]
        obtain ⟨k', hy'⟩ := hshort.roots hy
        exact rootAt_compress hx hne' hy'

/-- A forest over the holders whose trees are what `R` connects. -/
structure Sound (holders : List Hex) (m : DomainForest) (R : Hex → Hex → Prop) : Prop where
  grounded : Grounded m
  has : ∀ h ∈ holders, m.has h = true
  represents : Represents (parentOf m) R

section Sound

variable {holders : List Hex} {R : Hex → Hex → Prop}

theorem Sound.root (hm : Sound holders m R) (x : Hex) :
    (∃ n, RootAt (parentOf m) n x (root m.keys.length m x).1) ∧
      Shortens m (DomainForest.root m.keys.length m x).2 ∧
      Sound holders (DomainForest.root m.keys.length m x).2 R := by
  obtain ⟨n, r, hroot⟩ := hm.represents.hasRoots x
  obtain ⟨hvalue, hshort⟩ := root_spec hm.grounded _ hroot (hm.grounded.height_le hroot)
  exact ⟨⟨n, hvalue ▸ hroot⟩, hshort, hshort.grounded, fun h hh => hshort.has h (hm.has h hh),
    hm.represents.of_roots hshort.roots⟩

theorem Sound.union (hm : Sound holders m R) (x : Hex) (hy : y ∈ holders) :
    Sound holders (union m x y) (addPair R x y) := by
  obtain ⟨⟨n, hx⟩, hshort, hm'⟩ := hm.root x
  unfold DomainForest.union
  generalize DomainForest.root m.keys.length m x = found at hx hshort hm'
  obtain ⟨rx, m'⟩ := found
  obtain ⟨⟨k, hy'⟩, hshort', hm''⟩ := hm'.root y
  simp only
  generalize DomainForest.root m'.keys.length m' y = found' at hy' hshort' hm''
  obtain ⟨ry, m''⟩ := found'
  simp only at hx hy' hshort hshort' hm'' ⊢
  obtain ⟨l, hxroot⟩ := hshort.roots hx
  obtain ⟨l', hxroot'⟩ := hshort'.roots hxroot
  obtain ⟨k', hyroot⟩ := hshort'.roots hy'
  by_cases hne : rx = ry
  · rw [if_neg (not_not.mpr hne)]
    subst hne
    exact ⟨hm''.grounded, hm''.has,
      hm''.represents.addPair_of_sameTree ⟨l', k', rx, hxroot', hyroot⟩⟩
  · rw [if_pos hne]
    refine ⟨hm''.grounded.set (hm''.grounded.has_root hyroot (hm''.has y hy)), ?_, ?_⟩
    · intro h hh
      rw [JsMap.has_set, hm''.has h hh, Bool.or_true]
    · rw [parentOf_set]
      exact hm''.represents.link hxroot' hyroot hne

/-- The pairs merged one after another. -/
def unionAll (m : DomainForest) (pairs : List (Hex × Hex)) : DomainForest :=
  pairs.foldl (fun m pair => DomainForest.union m pair.1 pair.2) m

theorem Sound.unionAll : ∀ (pairs : List (Hex × Hex)) {m : DomainForest} {R : Hex → Hex → Prop},
    Sound holders m R → (∀ pair ∈ pairs, pair.2 ∈ holders) →
    Sound holders (unionAll m pairs) fun u v => R u v ∨ (u, v) ∈ pairs
  | [], m, R, hm, _ => by simpa [DomainForest.unionAll] using hm
  | (x, y) :: rest, m, R, hm, hpairs => by
    have hrest := (hm.union x (hpairs (x, y) List.mem_cons_self)).unionAll rest
      fun pair hpair => hpairs pair (List.mem_cons_of_mem _ hpair)
    refine ⟨hrest.grounded, hrest.has, hrest.represents.congr fun u v => ?_⟩
    have hsame : ∀ u v, (addPair R x y u v ∨ (u, v) ∈ rest) ↔
        (R u v ∨ (u, v) ∈ (x, y) :: rest) := by
      intro u v
      simp only [addPair, List.mem_cons, Prod.mk.injEq, or_assoc]
    simp only [hsame]

end Sound

/-! ## The merged pairs -/

/-- The pairs of the sweep. -/
def sweptPairs (sameDomain : Hex → Hex → Bool) : List Hex → List (Hex × Hex)
  | [] => []
  | a :: rest => (rest.filter (sameDomain a)).map (fun b => (a, b)) ++ sweptPairs sameDomain rest

/-- The hint of a holder, if it has one. -/
def hintOf (declared : Hex → Option String) (h : Hex) : Option String :=
  (declared h).filter (· ≠ "")

/-- The pairs of the declared hints, with the holder that each id was last seen from. -/
def hintPairs (declared : Hex → Option String) : JsMap String Hex → List Hex → List (Hex × Hex)
  | _, [] => []
  | byDeclared, h :: rest =>
    match hintOf declared h with
    | none => hintPairs declared byDeclared rest
    | some d =>
      match (byDeclared.get? d).filter (· ≠ "") with
      | some seen => (h, seen) :: hintPairs declared byDeclared rest
      | none => hintPairs declared (byDeclared.set d h) rest

theorem unionAll_append (m : DomainForest) (pairs later : List (Hex × Hex)) :
    unionAll m (pairs ++ later) = unionAll (unionAll m pairs) later :=
  List.foldl_append

theorem mergePairs_eq (sameDomain : Hex → Hex → Bool) : ∀ (l : List Hex) (m : DomainForest),
    mergePairs sameDomain l m = unionAll m (sweptPairs sameDomain l)
  | [], m => rfl
  | a :: rest, m => by
    have hfold : ∀ (l : List Hex) (m : DomainForest),
        l.foldl (fun m b => if sameDomain a b then DomainForest.union m a b else m) m =
          unionAll m ((l.filter (sameDomain a)).map fun b => (a, b)) := by
      intro l
      induction l with
      | nil => intro m; rfl
      | cons b l ih =>
        intro m
        rw [List.foldl_cons, ih]
        by_cases hb : sameDomain a b = true
        · rw [if_pos hb, List.filter_cons_of_pos hb]
          rfl
        · rw [if_neg hb, List.filter_cons_of_neg hb]
    rw [mergePairs, hfold, mergePairs_eq sameDomain rest, sweptPairs, unionAll_append]

theorem mergeDeclared_eq (declared : Hex → Option String) (holders : List Hex)
    (m : DomainForest) :
    mergeDeclared declared holders m = unionAll m (hintPairs declared .empty holders) := by
  have hfold : ∀ (l : List Hex) (forest : DomainForest × JsMap String Hex),
      (l.foldl (fun (forest : DomainForest × JsMap String Hex) h =>
        match (declared h).filter (· ≠ "") with
        | none => forest
        | some d =>
          match (forest.2.get? d).filter (· ≠ "") with
          | some seen => (DomainForest.union forest.1 h seen, forest.2)
          | none => (forest.1, forest.2.set d h)) forest).1 =
        unionAll forest.1 (hintPairs declared forest.2 l) := by
    intro l
    induction l with
    | nil => intro forest; rfl
    | cons h rest ih =>
      intro forest
      rw [List.foldl_cons, ih, hintPairs, hintOf]
      cases (declared h).filter (· ≠ "") with
      | none => rfl
      | some d =>
        cases hseen : (forest.2.get? d).filter (· ≠ "") with
        | none => simp only [hseen]
        | some seen =>
          simp only [hseen]
          rfl
  exact hfold holders (m, .empty)

theorem mem_sweptPairs {sameDomain : Hex → Hex → Bool} {a b : Hex} : ∀ {l : List Hex},
    (a, b) ∈ sweptPairs sameDomain l ↔ [a, b].Sublist l ∧ sameDomain a b = true
  | [] => by simp [sweptPairs]
  | c :: rest => by
    rw [sweptPairs, List.mem_append, mem_sweptPairs, List.mem_map, List.sublist_cons_iff]
    constructor
    · rintro (⟨b', hb', heq⟩ | ⟨hsub, hsame⟩)
      · cases heq
        obtain ⟨hmem, hsame⟩ := List.mem_filter.mp hb'
        exact ⟨Or.inr ⟨[b], rfl, List.singleton_sublist.mpr hmem⟩, hsame⟩
      · exact ⟨Or.inl hsub, hsame⟩
    · rintro ⟨hsub | ⟨r, heq, hsub⟩, hsame⟩
      · exact Or.inr ⟨hsub, hsame⟩
      · cases heq
        exact Or.inl ⟨b, List.mem_filter.mpr ⟨List.singleton_sublist.mp hsub, hsame⟩, rfl⟩

/-! ## The declared hints -/

section Hints

variable {declared : Hex → Option String} {l done : List Hex} {h s : Hex} {d : String}

/-- The holder that the others of an id are merged with: the first that is not empty. -/
def leader (declared : Hex → Option String) (l : List Hex) (d : String) : Option Hex :=
  l.find? fun h => decide (h ≠ "" ∧ hintOf declared h = some d)

theorem leader_append_of_some {l₂ : List Hex} (hl : leader declared l d = some s) :
    leader declared (l ++ l₂) d = some s := by
  unfold leader at hl ⊢
  rw [List.find?_append, hl, Option.some_or]

theorem leader_append_of_none {l₂ : List Hex} (hl : leader declared l d = none) :
    leader declared (l ++ l₂) d = leader declared l₂ d := by
  unfold leader at hl ⊢
  rw [List.find?_append, hl, Option.none_or]

theorem leader_spec (hl : leader declared l d = some s) :
    s ∈ l ∧ s ≠ "" ∧ hintOf declared s = some d :=
  ⟨List.mem_of_find?_eq_some hl, by simpa using List.find?_some hl⟩

theorem exists_leader (hh : h ∈ l) (hne : h ≠ "") (hd : hintOf declared h = some d) :
    ∃ s, leader declared l d = some s := by
  rw [← Option.isSome_iff_exists]
  exact List.find?_isSome.mpr ⟨h, hh, by simp [hne, hd]⟩

theorem leader_concat {x : Hex}
    (hx : hintOf declared x ≠ some d ∨ ∃ s, leader declared done d = some s) :
    leader declared (done ++ [x]) d = leader declared done d := by
  cases hl : leader declared done d with
  | some s => exact leader_append_of_some hl
  | none =>
    rcases hx with hx | ⟨s, hs⟩
    · rw [leader_append_of_none hl]
      simp [leader, hx]
    · rw [hl] at hs
      cases hs

theorem exists_place_cons {x : Hex} {P : List Hex → Prop} :
    (∃ l₁ l₂, x :: l = l₁ ++ h :: l₂ ∧ P l₁) ↔
      (x = h ∧ P []) ∨ ∃ l₁ l₂, l = l₁ ++ h :: l₂ ∧ P (x :: l₁) := by
  constructor
  · rintro ⟨l₁, l₂, heq, hP⟩
    cases l₁ with
    | nil =>
      cases heq
      exact Or.inl ⟨rfl, hP⟩
    | cons y l₁ =>
      cases heq
      exact Or.inr ⟨l₁, l₂, rfl, hP⟩
  · rintro (⟨rfl, hP⟩ | ⟨l₁, l₂, rfl, hP⟩)
    · exact ⟨[], l, rfl, hP⟩
    · exact ⟨x :: l₁, l₂, rfl, hP⟩

/-- The table files the leader of every id. -/
def Files (declared : Hex → Option String) (byDeclared : JsMap String Hex) (done : List Hex) :
    Prop :=
  ∀ d, (byDeclared.get? d).filter (· ≠ "") = leader declared done d

theorem files_nil : Files declared .empty [] := fun _ => rfl

theorem Files.skip {byDeclared : JsMap String Hex} {x : Hex} (h : Files declared byDeclared done)
    (hx : ∀ e, hintOf declared x = some e → ∃ s, leader declared done e = some s) :
    Files declared byDeclared (done ++ [x]) := by
  intro d
  rw [h d]
  by_cases hd : hintOf declared x = some d
  · exact (leader_concat (Or.inr (hx d hd))).symm
  · exact (leader_concat (Or.inl hd)).symm

theorem Files.set {byDeclared : JsMap String Hex} {x : Hex} {e : String}
    (h : Files declared byDeclared done) (hx : hintOf declared x = some e)
    (hl : leader declared done e = none) :
    Files declared (byDeclared.set e x) (done ++ [x]) := by
  intro d
  by_cases hde : e = d
  · subst hde
    rw [JsMap.get?_set_self, leader_append_of_none hl]
    by_cases hempty : x = ""
    · simp [leader, hempty]
    · simp [leader, hempty, hx]
  · have hother : hintOf declared x ≠ some d := by simpa [hx] using hde
    rw [JsMap.get?_set_ne byDeclared x hde, h d, leader_concat (Or.inl hother)]

/-- A holder is merged with the leader of its id, if the holders before it have one. -/
theorem mem_hintPairs : ∀ {l done : List Hex} {byDeclared : JsMap String Hex},
    Files declared byDeclared done →
    ((h, s) ∈ hintPairs declared byDeclared l ↔
      ∃ l₁ l₂, l = l₁ ++ h :: l₂ ∧
        ∃ d, hintOf declared h = some d ∧ leader declared (done ++ l₁) d = some s)
  | [], done, byDeclared, _ => by simp [hintPairs]
  | x :: rest, done, byDeclared, hby => by
    rw [exists_place_cons, hintPairs, List.append_nil]
    cases hx : hintOf declared x with
    | none =>
      have hskip : Files declared byDeclared (done ++ [x]) := hby.skip (by simp [hx])
      rw [mem_hintPairs hskip]
      simp only [List.append_assoc, List.singleton_append]
      refine (or_iff_right ?_).symm
      rintro ⟨rfl, d, hd, -⟩
      rw [hx] at hd
      cases hd
    | some e =>
      cases hseen : (byDeclared.get? e).filter (· ≠ "") with
      | some seen =>
        have hl : leader declared done e = some seen := by rw [← hby, hseen]
        have hskip : Files declared byDeclared (done ++ [x]) := by
          refine hby.skip fun d hd => ⟨seen, ?_⟩
          rw [hx] at hd
          cases hd
          exact hl
        simp only [hseen]
        rw [List.mem_cons, mem_hintPairs hskip]
        simp only [List.append_assoc, List.singleton_append]
        refine or_congr_left ?_
        constructor
        · intro heq
          cases heq
          exact ⟨rfl, e, hx, hl⟩
        · rintro ⟨rfl, d, hd, hl'⟩
          rw [hx] at hd
          cases hd
          rw [hl] at hl'
          cases hl'
          rfl
      | none =>
        have hl : leader declared done e = none := by rw [← hby, hseen]
        simp only [hseen]
        rw [mem_hintPairs (hby.set hx hl)]
        simp only [List.append_assoc, List.singleton_append]
        refine (or_iff_right ?_).symm
        rintro ⟨rfl, d, hd, hl'⟩
        rw [hx] at hd
        cases hd
        rw [hl] at hl'
        cases hl'

/-- The empty holder comes after another holder of the id. -/
def Late (declared : Hex → Option String) (holders : List Hex) (d : String) : Prop :=
  ∃ l₁ l₂, holders = l₁ ++ "" :: l₂ ∧ ∃ h ∈ l₁, h ≠ "" ∧ hintOf declared h = some d

/-- Two holders of one id, neither of them the empty holder unless it comes late. -/
def KeptHint (declared : Hex → Option String) (holders : List Hex) (a b : Hex) : Prop :=
  ∃ d, hintOf declared a = some d ∧ hintOf declared b = some d ∧
    (a ≠ "" ∨ Late declared holders d) ∧ (b ≠ "" ∨ Late declared holders d)

theorem connected_leader {holders : List Hex} (hh : h ∈ holders) (hd : hintOf declared h = some d)
    (hkept : h ≠ "" ∨ Late declared holders d) :
    ∃ s, leader declared holders d = some s ∧
      Relation.EqvGen (fun u v => (u, v) ∈ hintPairs declared .empty holders) h s := by
  have hplace : (h ≠ "" ∧ ∃ l₁ l₂, holders = l₁ ++ h :: l₂) ∨
      ∃ l₁ l₂, holders = l₁ ++ h :: l₂ ∧ ∃ s, leader declared l₁ d = some s := by
    by_cases hne : h = ""
    · obtain ⟨l₁, l₂, heq, g, hg, hgne, hgd⟩ := hkept.resolve_left (not_not.mpr hne)
      subst hne
      exact Or.inr ⟨l₁, l₂, heq, exists_leader hg hgne hgd⟩
    · obtain ⟨l₁, l₂, heq⟩ := List.append_of_mem hh
      exact Or.inl ⟨hne, l₁, l₂, heq⟩
  have hmerged : ∀ l₁ l₂ s, holders = l₁ ++ h :: l₂ → leader declared l₁ d = some s →
      ∃ s, leader declared holders d = some s ∧
        Relation.EqvGen (fun u v => (u, v) ∈ hintPairs declared .empty holders) h s := by
    intro l₁ l₂ s heq hl
    refine ⟨s, heq ▸ leader_append_of_some hl, .rel h s ?_⟩
    exact (mem_hintPairs files_nil).mpr ⟨l₁, l₂, heq, d, hd, hl⟩
  rcases hplace with ⟨hne, l₁, l₂, heq⟩ | ⟨l₁, l₂, heq, s, hl⟩
  · cases hl : leader declared l₁ d with
    | some s => exact hmerged l₁ l₂ s heq hl
    | none =>
      refine ⟨h, ?_, .refl h⟩
      rw [heq, leader_append_of_none hl]
      simp [leader, hne, hd]
  · exact hmerged l₁ l₂ s heq hl

theorem eqvGen_hintPairs (holders : List Hex) (a b : Hex) :
    Relation.EqvGen (fun u v => (u, v) ∈ hintPairs declared .empty holders) a b ↔
      Relation.EqvGen (fun u v => u ∈ holders ∧ v ∈ holders ∧ KeptHint declared holders u v)
        a b := by
  constructor
  · refine eqvGen_of_rel fun u v hpair => ?_
    obtain ⟨l₁, l₂, heq, d, hd, hl⟩ := (mem_hintPairs files_nil).mp hpair
    obtain ⟨hs, hne, hsd⟩ := leader_spec hl
    have hs' : v ∈ l₁ := by simpa using hs
    refine .rel u v ⟨by simp [heq], by simp [heq, hs'], d, hd, hsd, ?_, Or.inl hne⟩
    by_cases hu : u = ""
    · subst hu
      exact Or.inr ⟨l₁, l₂, heq, v, hs', hne, hsd⟩
    · exact Or.inl hu
  · refine eqvGen_of_rel ?_
    rintro u v ⟨hu, hv, d, hud, hvd, hukept, hvkept⟩
    obtain ⟨s, hs, hus⟩ := connected_leader hu hud hukept
    obtain ⟨s', hs', hvs⟩ := connected_leader hv hvd hvkept
    rw [hs] at hs'
    cases hs'
    exact hus.trans u s v (hvs.symm v s)

end Hints

end DomainForest

/-! ## The domains -/

section Domains

variable (F : Type) [JsNumber F]

/-- The holders that the sweep of `inferDomains` compares. -/
def candidates (correlation : FailureCorrelation) (holders : List Hex) : List Hex :=
  let candidates := holders.filter correlation.groupable
  if MAX_PAIRWISE_HOLDERS < candidates.length then
    (candidates.mergeSort fun a b =>
      decide (correlation.failureCount b ≤ correlation.failureCount a)).take MAX_PAIRWISE_HOLDERS
  else candidates

/-- The pairs that `inferDomains` merges. -/
def mergedPairs (correlation : FailureCorrelation) (holders : List Hex)
    (declared : Hex → Option String) : List (Hex × Hex) :=
  DomainForest.hintPairs declared .empty holders ++
    DomainForest.sweptPairs (correlation.sameDomain F) (candidates correlation holders)

/-- Independent holders among a set. -/
def independentCount (holders : List Hex) (correlation : FailureCorrelation)
    (declared : Hex → Option String) : Nat :=
  (JsSet.addAll .empty (inferDomains F holders correlation declared).values).keys.length

variable {F} {holders : List Hex} {correlation : FailureCorrelation}
  {declared declared' : Hex → Option String}

open DomainForest

theorem sound_start (holders : List Hex) :
    Sound holders (holders.foldl (fun parent h => JsMap.set parent h h) .empty)
      fun _ _ => False := by
  have hget : ∀ (l : List Hex) (m : DomainForest) (x : Hex),
      (l.foldl (fun parent h => JsMap.set parent h h) m).get? x =
        if x ∈ l then some x else m.get? x := by
    intro l
    induction l with
    | nil => intro m x; simp
    | cons h rest ih =>
      intro m x
      rw [List.foldl_cons, ih, JsMap.get?_set]
      by_cases hx : h = x
      · simp [hx]
      · simp [hx, Ne.symm hx]
  have hparent : parentOf (holders.foldl (fun parent h => JsMap.set parent h h) .empty) = id := by
    funext x
    unfold parentOf
    rw [hget]
    split
    · rfl
    · rfl
  refine ⟨fun x y hxy => ?_, fun h hh => ?_, hparent ▸ represents_id⟩
  · rw [hget, JsMap.get?_empty] at hxy
    split at hxy
    case isTrue hx =>
      cases hxy
      simp [JsMap.has, hget, hx]
    case isFalse => cases hxy
  · simp [JsMap.has, hget, hh]

theorem mem_candidates {h : Hex} (hh : h ∈ candidates correlation holders) : h ∈ holders := by
  unfold candidates at hh
  simp only at hh
  split at hh
  · have hmem := List.mem_mergeSort.mp (List.mem_of_mem_take hh)
    exact (List.mem_filter.mp hmem).1
  · exact (List.mem_filter.mp hh).1

theorem mem_holders_of_mergedPairs {pair : Hex × Hex}
    (h : pair ∈ mergedPairs F correlation holders declared) : pair.2 ∈ holders := by
  obtain ⟨a, b⟩ := pair
  rcases List.mem_append.mp h with h | h
  · obtain ⟨l₁, l₂, heq, d, -, hl⟩ := (mem_hintPairs files_nil).mp h
    have hb : b ∈ l₁ := by simpa using (leader_spec hl).1
    rw [heq]
    exact List.mem_append_left _ hb
  · exact mem_candidates ((mem_sweptPairs.mp h).1.mem (by simp))

theorem representatives_spec {R : Hex → Hex → Prop} {rootOf : Hex → Hex} {p₀ : Hex → Hex}
    (hroot : ∀ h, ∃ n, RootAt p₀ n h (rootOf h)) :
    ∀ (l : List Hex) (out : JsMap Hex String) (m : DomainForest), Sound holders m R →
      (∀ {k y s}, RootAt p₀ k y s → ∃ k', RootAt (parentOf m) k' y s) → ∀ x,
      (l.foldl (fun (out : JsMap Hex String × DomainForest) h =>
        let (r, parent) := out.2.root out.2.keys.length h
        (out.1.set h r, parent)) (out, m)).1.get? x =
        if x ∈ l then some (rootOf x) else out.get? x
  | [], out, m, _, _, x => by simp
  | h :: rest, out, m, hm, hroots, x => by
    obtain ⟨⟨n, hfound⟩, hshort, hm'⟩ := hm.root h
    obtain ⟨k, hh⟩ := hroot h
    obtain ⟨k', hh'⟩ := hroots hh
    have hvalue : (root m.keys.length m h).1 = rootOf h := (hfound.unique hh').2
    rw [List.foldl_cons]
    simp only
    rw [representatives_spec hroot rest _ _ hm' (fun hy => hshort.roots (hroots hy).choose_spec),
      JsMap.get?_set, hvalue]
    by_cases hx : h = x
    · simp [hx]
    · simp [hx, Ne.symm hx]

theorem inferDomains_spec (F : Type) [JsNumber F] (correlation : FailureCorrelation)
    (holders : List Hex) (declared : Hex → Option String) :
    ∃ rootOf : Hex → Hex,
      (∀ h, (inferDomains F holders correlation declared).get? h =
        if h ∈ holders then some (rootOf h) else none) ∧
      ∀ a b, rootOf a = rootOf b ↔
        Relation.EqvGen (fun u v => (u, v) ∈ mergedPairs F correlation holders declared) a b := by
  have hsound := (sound_start holders).unionAll (mergedPairs F correlation holders declared)
    fun pair hpair => mem_holders_of_mergedPairs hpair
  simp only [false_or] at hsound
  have hroots := hsound.represents.hasRoots
  choose n rootOf hroot using hroots
  refine ⟨rootOf, fun h => ?_, fun a b => ?_⟩
  · have hout := representatives_spec (fun h => ⟨n h, hroot h⟩) holders .empty _ hsound
      (fun hy => ⟨_, hy⟩) h
    rw [mergedPairs, unionAll_append, ← mergeDeclared_eq, ← mergePairs_eq] at hout
    exact hout
  · rw [← hsound.represents.sameTree_iff]
    constructor
    · intro heq
      exact ⟨n a, n b, rootOf a, hroot a, heq ▸ hroot b⟩
    · exact fun hsame => hsame.root_eq (hroot a) (hroot b)

/-! ## Groupable holders -/

/-- The joint failures of `evidence(a, b)`. -/
def jointFailures (C : FailureCorrelation) (a b : Hex) : Nat :=
  ((C.down.get? a).getD .empty).keys.countP ((C.down.get? b).getD .empty).has

theorem failureCount_eq (C : FailureCorrelation) (h : Hex) :
    C.failureCount h = ((C.down.get? h).getD .empty).keys.length := by
  unfold FailureCorrelation.failureCount
  cases C.down.get? h <;> rfl

theorem jointFailures_le (C : FailureCorrelation) (a b : Hex) :
    jointFailures C a b ≤ C.failureCount a ∧ jointFailures C a b ≤ C.failureCount b := by
  rw [failureCount_eq, failureCount_eq]
  unfold jointFailures
  generalize (C.down.get? a).getD .empty = downA
  generalize (C.down.get? b).getD .empty = downB
  refine ⟨List.countP_le_length, ?_⟩
  rw [List.countP_eq_length_filter]
  have hnodup : (downA.keys.filter downB.has).Nodup := downA.nodup.filter _
  refine (hnodup.subperm fun x hx => ?_).length_le
  exact (JsSet.has_iff_mem_keys downB x).mp (List.mem_filter.mp hx).2

theorem groupable_of_sameDomain {C : FailureCorrelation} {a b : Hex}
    (h : C.sameDomain F a b = true) : C.groupable a = true ∧ C.groupable b = true := by
  have hjoint : MIN_JOINT_FAILURES ≤ jointFailures C a b := by
    by_contra hfew
    have hphi : C.phi (F := F) a b = none := if_pos (not_le.mp hfew)
    rw [FailureCorrelation.sameDomain, hphi] at h
    cases h
  obtain ⟨ha, hb⟩ := jointFailures_le C a b
  exact ⟨decide_eq_true (hjoint.trans ha), decide_eq_true (hjoint.trans hb)⟩

/-! ## Components -/

/-- The two are connected by pairs of holders that are in the relation. -/
def Connected (holders : List Hex) (R : Hex → Hex → Prop) : Hex → Hex → Prop :=
  Relation.EqvGen fun u v => u ∈ holders ∧ v ∈ holders ∧ R u v

/-- Two holders that declare one id, or that fail together. -/
def Linked (F : Type) [JsNumber F] (correlation : FailureCorrelation)
    (declared : Hex → Option String) (a b : Hex) : Prop :=
  (∃ d, hintOf declared a = some d ∧ hintOf declared b = some d) ∨
    correlation.sameDomain F a b = true

/-- Two holders whose hint is kept, or that fail together, compared in the order of the list. -/
def Joined (F : Type) [JsNumber F] (correlation : FailureCorrelation) (holders : List Hex)
    (declared : Hex → Option String) (a b : Hex) : Prop :=
  KeptHint declared holders a b ∨
    ([a, b].Sublist holders ∧ correlation.sameDomain F a b = true)

theorem eqvGen_mergedPairs
    (hfew : (holders.filter correlation.groupable).length ≤ MAX_PAIRWISE_HOLDERS) (a b : Hex) :
    Relation.EqvGen (fun u v => (u, v) ∈ mergedPairs F correlation holders declared) a b ↔
      Connected holders (Joined F correlation holders declared) a b := by
  have hcandidates : candidates correlation holders = holders.filter correlation.groupable :=
    if_neg (not_lt.mpr hfew)
  have hhints := @eqvGen_hintPairs declared holders
  constructor
  · refine eqvGen_of_rel fun u v hpair => ?_
    rcases List.mem_append.mp hpair with hpair | hpair
    · refine ((hhints u v).mp (.rel u v hpair)).mono ?_
      exact fun x y hxy => ⟨hxy.1, hxy.2.1, Or.inl hxy.2.2⟩
    · rw [hcandidates] at hpair
      obtain ⟨hsub, hsame⟩ := mem_sweptPairs.mp hpair
      have hsub' := hsub.trans List.filter_sublist
      exact .rel u v ⟨hsub'.mem (by simp), hsub'.mem (by simp), Or.inr ⟨hsub', hsame⟩⟩
  · refine eqvGen_of_rel ?_
    rintro u v ⟨hu, hv, hkept | ⟨hsub, hsame⟩⟩
    · refine ((hhints u v).mpr (.rel u v ⟨hu, hv, hkept⟩)).mono ?_
      exact fun x y hxy => List.mem_append_left _ hxy
    · refine .rel u v (List.mem_append_right _ (mem_sweptPairs.mpr ⟨?_, hsame⟩))
      obtain ⟨hga, hgb⟩ := groupable_of_sameDomain hsame
      have hfilter := hsub.filter correlation.groupable
      rwa [List.filter_cons_of_pos hga, List.filter_cons_of_pos hgb, List.filter_nil,
        ← hcandidates] at hfilter

theorem sublist_or_sublist {a b : Hex} (hab : a ≠ b) : ∀ {l : List Hex}, a ∈ l → b ∈ l →
    [a, b].Sublist l ∨ [b, a].Sublist l
  | x :: rest, ha, hb => by
    rcases List.mem_cons.mp ha with rfl | ha'
    · have hb' : b ∈ rest := (List.mem_cons.mp hb).resolve_left hab.symm
      exact Or.inl ((List.singleton_sublist.mpr hb').cons_cons a)
    · rcases List.mem_cons.mp hb with rfl | hb'
      · exact Or.inr ((List.singleton_sublist.mpr ha').cons_cons b)
      · exact (sublist_or_sublist hab ha' hb').imp (fun h => h.cons x) fun h => h.cons x

/-- No link is lost: what the empty holder declares connects it all the same, and so does a pair
that fails together only when it is compared in the other order. -/
structure DomainsReached (F : Type) [JsNumber F] (correlation : FailureCorrelation)
    (holders : List Hex) (declared : Hex → Option String) : Prop where
  empty_hint : "" ∈ holders → ∀ b ∈ holders,
    (∃ d, hintOf declared "" = some d ∧ hintOf declared b = some d) →
    Connected holders (Joined F correlation holders declared) "" b
  sweep_order : ∀ a b, [b, a].Sublist holders → correlation.sameDomain F a b = true →
    Connected holders (Joined F correlation holders declared) a b

theorem DomainsReached.joined (h : DomainsReached F correlation holders declared) {u v : Hex}
    (hu : u ∈ holders) (hv : v ∈ holders) (hlink : Linked F correlation declared u v) :
    Connected holders (Joined F correlation holders declared) u v := by
  rcases hlink with ⟨d, hud, hvd⟩ | hsame
  · by_cases hu' : u = ""
    · subst hu'
      exact h.empty_hint hu v hv ⟨d, hud, hvd⟩
    · by_cases hv' : v = ""
      · subst hv'
        exact (h.empty_hint hv u hu ⟨d, hvd, hud⟩).symm _ _
      · exact .rel u v ⟨hu, hv, Or.inl ⟨d, hud, hvd, Or.inl hu', Or.inl hv'⟩⟩
  · by_cases huv : u = v
    · exact huv ▸ .refl u
    · rcases sublist_or_sublist huv hu hv with hsub | hsub
      · exact .rel u v ⟨hu, hv, Or.inr ⟨hsub, hsame⟩⟩
      · exact h.sweep_order u v hsub hsame

theorem linked_of_joined {u v : Hex} (h : Joined F correlation holders declared u v) :
    Linked F correlation declared u v := by
  rcases h with ⟨d, hud, hvd, -, -⟩ | ⟨-, hsame⟩
  · exact Or.inl ⟨d, hud, hvd⟩
  · exact Or.inr hsame

/-! ## The count -/

theorem keptHint_of_more_hints
    (hmore : ∀ h ∈ holders, ∀ d, hintOf declared h = some d → hintOf declared' h = some d)
    {a b : Hex} (ha : a ∈ holders) (hb : b ∈ holders) (h : KeptHint declared holders a b) :
    KeptHint declared' holders a b := by
  obtain ⟨d, had, hbd, hakept, hbkept⟩ := h
  have hlate : Late declared holders d → Late declared' holders d := by
    rintro ⟨l₁, l₂, heq, g, hg, hgne, hgd⟩
    exact ⟨l₁, l₂, heq, g, hg, hgne, hmore g (heq ▸ List.mem_append_left _ hg) d hgd⟩
  exact ⟨d, hmore a ha d had, hmore b hb d hbd, hakept.imp_right hlate, hbkept.imp_right hlate⟩

theorem eqvGen_of_more_hints
    (hmore : ∀ h ∈ holders, ∀ d, hintOf declared h = some d → hintOf declared' h = some d)
    {a b : Hex}
    (h : Relation.EqvGen (fun u v => (u, v) ∈ mergedPairs F correlation holders declared) a b) :
    Relation.EqvGen (fun u v => (u, v) ∈ mergedPairs F correlation holders declared') a b := by
  refine eqvGen_of_rel (fun u v hpair => ?_) h
  rcases List.mem_append.mp hpair with hpair | hpair
  · have hmono : ∀ x y, x ∈ holders ∧ y ∈ holders ∧ KeptHint declared holders x y →
        x ∈ holders ∧ y ∈ holders ∧ KeptHint declared' holders x y :=
      fun x y hxy => ⟨hxy.1, hxy.2.1, keptHint_of_more_hints hmore hxy.1 hxy.2.1 hxy.2.2⟩
    have hkept := ((eqvGen_hintPairs holders u v).mp (.rel u v hpair)).mono hmono
    exact ((eqvGen_hintPairs holders u v).mpr hkept).mono fun x y hxy =>
      List.mem_append_left _ hxy
  · exact .rel u v (List.mem_append_right _ hpair)

theorem length_keys_addAll {K : Type} [DecidableEq K] (l : List K) :
    (JsSet.addAll .empty l).keys.length = l.toFinset.card := by
  have hnodup : (JsSet.addAll .empty l).keys.Nodup := (JsSet.addAll .empty l).nodup
  rw [← List.toFinset_card_of_nodup hnodup]
  congr 1
  ext k
  rw [List.mem_toFinset, List.mem_toFinset, ← JsSet.has_iff_mem_keys, JsSet.has_addAll]
  simp

theorem card_image_le_of_factors {α β : Type} [DecidableEq β] [Nonempty α] {S : Finset α}
    {f g : α → β} (h : ∀ a b, f a = f b → g a = g b) : (S.image g).card ≤ (S.image f).card := by
  have hpick : ∀ z ∈ S.image g, ∃ a ∈ S, g a = z := fun z hz => Finset.mem_image.mp hz
  choose! pick hpick using hpick
  refine Finset.card_le_card_of_injOn (fun z => f (pick z)) ?_ ?_
  · exact fun z hz => Finset.mem_image_of_mem f (hpick z hz).1
  · intro z hz w hw heq
    rw [← (hpick z hz).2, ← (hpick w hw).2]
    exact h _ _ heq

theorem independentCount_eq {rootOf : Hex → Hex}
    (hroot : ∀ h, (inferDomains F holders correlation declared).get? h =
      if h ∈ holders then some (rootOf h) else none) :
    independentCount F holders correlation declared = (holders.toFinset.image rootOf).card := by
  unfold independentCount
  rw [length_keys_addAll]
  congr 1
  ext v
  rw [List.mem_toFinset, Finset.mem_image]
  simp only [JsMap.values, List.mem_map, List.mem_toFinset]
  constructor
  · rintro ⟨⟨h, w⟩, hmem, rfl⟩
    have hget := (JsMap.get?_eq_some_iff _ h w).mpr hmem
    rw [hroot] at hget
    split at hget
    case isTrue hh =>
      cases hget
      exact ⟨h, hh, rfl⟩
    case isFalse => cases hget
  · rintro ⟨h, hh, rfl⟩
    refine ⟨(h, rootOf h), (JsMap.get?_eq_some_iff _ h _).mp ?_, rfl⟩
    rw [hroot, if_pos hh]

theorem independentCount_le_of_more_hints
    (hmore : ∀ h ∈ holders, ∀ d, hintOf declared h = some d → hintOf declared' h = some d) :
    independentCount F holders correlation declared' ≤
      independentCount F holders correlation declared := by
  obtain ⟨rootOf, hroot, hsame⟩ := inferDomains_spec F correlation holders declared
  obtain ⟨rootOf', hroot', hsame'⟩ := inferDomains_spec F correlation holders declared'
  rw [independentCount_eq hroot, independentCount_eq hroot']
  refine card_image_le_of_factors fun a b heq => ?_
  exact (hsame' a b).mpr (eqvGen_of_more_hints hmore ((hsame a b).mp heq))

theorem components_iff_reached
    (hfew : (holders.filter correlation.groupable).length ≤ MAX_PAIRWISE_HOLDERS) :
    (∀ a ∈ holders, ∀ b ∈ holders,
      ((inferDomains F holders correlation declared).get? a =
          (inferDomains F holders correlation declared).get? b ↔
        Connected holders (Linked F correlation declared) a b)) ↔
      DomainsReached F correlation holders declared := by
  obtain ⟨rootOf, hroot, hsame⟩ := inferDomains_spec F correlation holders declared
  have hdomain : ∀ a ∈ holders, ∀ b ∈ holders,
      ((inferDomains F holders correlation declared).get? a =
          (inferDomains F holders correlation declared).get? b ↔
        Connected holders (Joined F correlation holders declared) a b) := by
    intro a ha b hb
    rw [hroot, hroot, if_pos ha, if_pos hb, Option.some_inj, hsame, eqvGen_mergedPairs hfew]
  constructor
  · intro hcomponents
    refine ⟨fun hempty b hb hd => ?_, fun a b hsub hab => ?_⟩
    · refine (hdomain "" hempty b hb).mp ((hcomponents "" hempty b hb).mpr ?_)
      exact .rel "" b ⟨hempty, hb, Or.inl hd⟩
    · have ha : a ∈ holders := hsub.mem (by simp)
      have hb : b ∈ holders := hsub.mem (by simp)
      refine (hdomain a ha b hb).mp ((hcomponents a ha b hb).mpr ?_)
      exact .rel a b ⟨ha, hb, Or.inr hab⟩
  · intro hreached a ha b hb
    rw [hdomain a ha b hb]
    constructor
    · intro h
      exact h.mono fun u v huv => ⟨huv.1, huv.2.1, linked_of_joined huv.2.2⟩
    · refine eqvGen_of_rel ?_
      exact fun u v huv => hreached.joined huv.1 huv.2.1 huv.2.2

/-- Domains are the connected components exactly when no link is lost; and more declared hints
never make more independent holders. -/
theorem domains_are_components (F : Type) [JsNumber F] (correlation : FailureCorrelation)
    (holders : List Hex) (declared : Hex → Option String)
    (hfew : (holders.filter correlation.groupable).length ≤ MAX_PAIRWISE_HOLDERS) :
    ((∀ a ∈ holders, ∀ b ∈ holders,
      ((inferDomains F holders correlation declared).get? a =
          (inferDomains F holders correlation declared).get? b ↔
        Connected holders (Linked F correlation declared) a b)) ↔
      DomainsReached F correlation holders declared) ∧
    ∀ declared' : Hex → Option String,
      (∀ h ∈ holders, ∀ d, hintOf declared h = some d → hintOf declared' h = some d) →
      independentCount F holders correlation declared' ≤
        independentCount F holders correlation declared :=
  ⟨components_iff_reached hfew, fun _ hmore => independentCount_le_of_more_hints hmore⟩

end Domains

/-! ## The empty holder -/

/-- A history without observations, at the production heartbeat. -/
def unobserved : FailureCorrelation := .new FailureCorrelation.normalHeartbeat none

/-- Two holders that declare one machine, without a failure of either. -/
theorem domains_are_components_one_laptop :
    (inferDomains ℚ ["aa", "bb"] unobserved fun _ => some "laptop").get? "aa" =
      (inferDomains ℚ ["aa", "bb"] unobserved fun _ => some "laptop").get? "bb" := by
  have hreached : DomainsReached ℚ unobserved ["aa", "bb"] fun _ => some "laptop" := by
    refine ⟨fun hempty => by simp at hempty, fun a b _ hsame => ?_⟩
    have hnever : unobserved.sameDomain ℚ a b = false := rfl
    rw [hnever] at hsame
    cases hsame
  have hcomponents := (domains_are_components ℚ unobserved ["aa", "bb"]
    (fun _ => some "laptop") (by decide)).1.mpr hreached
  refine (hcomponents "aa" (by simp) "bb" (by simp)).mpr (.rel "aa" "bb" ⟨by simp, by simp, ?_⟩)
  exact Or.inl ⟨"laptop", by decide, by decide⟩

/-- The empty holder is a domain of its own, although it declares the machine of the other. -/
theorem empty_holder_alone :
    Connected ["", "aa"] (Linked ℚ unobserved fun _ => some "laptop") "" "aa" ∧
    (inferDomains ℚ ["", "aa"] unobserved fun _ => some "laptop").get? "" = some "" ∧
    (inferDomains ℚ ["", "aa"] unobserved fun _ => some "laptop").get? "aa" = some "aa" := by
  refine ⟨.rel "" "aa" ⟨by simp, by simp, Or.inl ⟨"laptop", by decide, by decide⟩⟩, ?_, ?_⟩
  · decide +kernel
  · decide +kernel

end NeuronWeb
