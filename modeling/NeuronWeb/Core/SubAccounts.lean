/-
  Core/SubAccounts: many keys, one human.

  A registry of delegations: a human's root key issues sub-accounts, each with a key of its
  own.  Every cap, floor and weight is counted against the root, so the registry keeps two
  things true in any order of registrations, revocations and sweeps: the two directions of
  the delegation relation agree, and the relation has depth one.
-/
import Mathlib.Data.Finset.Card
import NeuronWeb.Foundation.Number
import NeuronWeb.Foundation.ReverseIndex
import NeuronWeb.Foundation.Run

set_option autoImplicit false

namespace NeuronWeb

open ReverseIndex

variable {F : Type}

inductive SubAccountKind where
  | device
  | domain
  deriving DecidableEq, Repr, Inhabited

structure Delegation (F : Type) where
  /-- The human's root account. -/
  parent : String
  /-- The delegated key. -/
  child : String
  kind : SubAccountKind
  issuedAt : F
  /-- A delegation with none lives until revoked. -/
  expiresAt : Option F

/-- `d.expiresAt !== undefined && d.expiresAt <= now`. -/
def Delegation.expired [JsNumber F] (d : Delegation F) (now : F) : Bool :=
  match d.expiresAt with
  | some expiresAt => JsNumber.le expiresAt now
  | none => false

structure SubAccountRegistry (F : Type) where
  parentOf : JsMap String (Delegation F)
  childrenOf : JsMap String (JsSet String)

namespace SubAccountRegistry

def new : SubAccountRegistry F := ⟨JsMap.empty, JsMap.empty⟩

/-! ## Calls -/

section Calls

variable (R : SubAccountRegistry F)

/-- Is the key delegated by somebody else? -/
def claimedByOther (d : Delegation F) : Bool :=
  match R.parentOf.get? d.child with
  | some existing => existing.parent ≠ d.parent
  | none => false

/-- `childrenOf.get(parent)?.size`, as a condition. -/
def hasChildren (parent : String) : Bool :=
  match R.childrenOf.get? parent with
  | some set => set.keys.length ≠ 0
  | none => false

/-- Record a delegation.  Returns why it was refused, or `none`. -/
def register [JsNumber F] (d : Delegation F) (verify : Delegation F → Bool) (now : F) :
    SubAccountRegistry F × Option String :=
  if d.parent = d.child then (R, some "a key cannot delegate to itself")
  else if !verify d then (R, some "delegation is not signed by the parent")
  else if d.expired now then (R, some "delegation is already expired")
  else if R.parentOf.has d.parent then (R, some "a sub-account may not issue sub-accounts")
  else if R.claimedByOther d then
    (R, some "child is already delegated to a different parent")
  else if R.hasChildren d.child then (R, some "a parent may not become a sub-account")
  else
    let set := (R.childrenOf.get? d.parent).getD JsMap.empty
    ({ parentOf := R.parentOf.set d.child d
       childrenOf := R.childrenOf.set d.parent (JsSet.add set d.child) }, none)

/-- Take a child out of the set of its parent, and the set out of the map when it is empty. -/
def dropChild (childrenOf : JsMap String (JsSet String)) (parent child : String) :
    JsMap String (JsSet String) :=
  match childrenOf.get? parent with
  | none => childrenOf
  | some set =>
    let set := set.delete child
    if set.keys.length = 0 then childrenOf.delete parent else childrenOf.set parent set

def revoke (child : String) : SubAccountRegistry F × Bool :=
  match R.parentOf.get? child with
  | none => (R, false)
  | some d =>
    ({ parentOf := R.parentOf.delete child
       childrenOf := dropChild R.childrenOf d.parent child }, true)

/-- The human behind a key: the key itself when it is not delegated. -/
def rootOf [JsNumber F] (id : String) (now : F) : String :=
  match R.parentOf.get? id with
  | some d => if d.expired now then id else d.parent
  | none => id

def isSubAccount [JsNumber F] (id : String) (now : F) : Bool := R.rootOf id now ≠ id

/-- How many distinct humans are represented by a set of keys. -/
def distinctHumans [JsNumber F] (ids : List String) (now : F) : Nat :=
  (JsSet.addAll JsMap.empty (ids.map fun id => R.rootOf id now)).keys.length

/-- Drop expired delegations.  Returns how many went. -/
def sweep [JsNumber F] (now : F) : SubAccountRegistry F × Nat :=
  R.parentOf.entries.foldl (fun acc entry =>
    if entry.2.expired now then ((acc.1.revoke entry.1).1, acc.2 + 1) else acc) (R, 0)

end Calls

/-- A call that changes the registry. -/
inductive Call (F : Type) where
  | register (d : Delegation F) (verify : Delegation F → Bool) (now : F)
  | revoke (child : String)
  | sweep (now : F)

def step [JsNumber F] (R : SubAccountRegistry F) : Call F → SubAccountRegistry F
  | .register d verify now => (R.register d verify now).1
  | .revoke child => (R.revoke child).1
  | .sweep now => (R.sweep now).1

/-! ## Depth one -/

/-- The children are the reverse of the parents, and no parent is a child. -/
structure Flat (R : SubAccountRegistry F) : Prop where
  groups : Groups Delegation.parent R.parentOf R.childrenOf
  depth : ∀ child d, R.parentOf.get? child = some d → R.parentOf.get? d.parent = none

section Invariant

variable {R : SubAccountRegistry F}

theorem flat_new : (new : SubAccountRegistry F).Flat where
  groups := groups_empty
  depth := by
    intro child d hd
    cases hd

theorem claimedByOther_eq_false {d : Delegation F} :
    R.claimedByOther d = false ↔
      ∀ existing, R.parentOf.get? d.child = some existing → existing.parent = d.parent := by
  unfold claimedByOther
  cases R.parentOf.get? d.child with
  | none => simp
  | some existing => simp

theorem Flat.hasChildren_iff (h : R.Flat) (parent : String) :
    R.hasChildren parent = true ↔ ∃ child d, R.parentOf.get? child = some d ∧
      d.parent = parent := by
  rw [← h.groups.has_iff]
  unfold hasChildren JsMap.has
  cases hget : R.childrenOf.get? parent with
  | none => simp
  | some set =>
    obtain ⟨child, hchild⟩ := h.groups.nonempty parent set hget
    have hmem := (JsSet.has_iff_mem_keys set child).mp hchild
    have hlength : set.keys.length ≠ 0 := by
      rw [Ne, List.length_eq_zero_iff]
      exact List.ne_nil_of_mem hmem
    simp [hlength]

/-- A registration that is not refused, guards included. -/
structure Admitted [JsNumber F] (R : SubAccountRegistry F) (d : Delegation F)
    (verify : Delegation F → Bool) (now : F) : Prop where
  distinct : d.parent ≠ d.child
  signed : verify d = true
  live : d.expired now = false
  root : R.parentOf.get? d.parent = none
  unclaimed : ∀ existing, R.parentOf.get? d.child = some existing → existing.parent = d.parent
  childless : R.hasChildren d.child = false

theorem register_cases [JsNumber F] (R : SubAccountRegistry F) (d : Delegation F)
    (verify : Delegation F → Bool) (now : F) :
    (∃ reason, R.register d verify now = (R, some reason)) ∨
      Admitted R d verify now ∧ R.register d verify now =
        ({ parentOf := R.parentOf.set d.child d
           childrenOf := R.childrenOf.set d.parent
            (JsSet.add (members R.childrenOf d.parent) d.child) }, none) := by
  unfold register
  by_cases hself : d.parent = d.child
  · exact .inl ⟨_, if_pos hself⟩
  rw [if_neg hself]
  cases hsigned : verify d with
  | false => exact .inl ⟨_, if_pos rfl⟩
  | true =>
    cases hlive : d.expired now with
    | true => exact .inl ⟨_, rfl⟩
    | false =>
      cases hroot : R.parentOf.has d.parent with
      | true => exact .inl ⟨_, rfl⟩
      | false =>
        cases hclaimed : R.claimedByOther d with
        | true => exact .inl ⟨_, rfl⟩
        | false =>
          cases hchildren : R.hasChildren d.child with
          | true => exact .inl ⟨_, rfl⟩
          | false =>
            exact .inr ⟨⟨hself, hsigned, hlive,
              (JsMap.has_eq_false_iff _ _).mp hroot, claimedByOther_eq_false.mp hclaimed,
              hchildren⟩, rfl⟩

theorem Flat.register [JsNumber F] (h : R.Flat) (d : Delegation F)
    (verify : Delegation F → Bool) (now : F) : (R.register d verify now).1.Flat := by
  rcases register_cases R d verify now with ⟨reason, heq⟩ | ⟨admitted, heq⟩
  · rw [heq]
    exact h
  · rw [heq]
    constructor
    · exact h.groups.insert admitted.unclaimed
    · intro child e he
      have hnoChild : ∀ other d', R.parentOf.get? other = some d' → d'.parent ≠ d.child := by
        intro other d' hd' hparent
        have hhas := (h.hasChildren_iff d.child).mpr ⟨other, d', hd', hparent⟩
        rw [admitted.childless] at hhas
        cases hhas
      simp only [JsMap.get?_set] at he ⊢
      split at he
      · cases he
        rw [if_neg admitted.distinct.symm, admitted.root]
      · rw [if_neg (hnoChild child e he).symm, h.depth child e he]

theorem has_delete (set : JsSet String) (child other : String) :
    (set.delete child).has other = true ↔ child ≠ other ∧ set.has other = true := by
  rw [JsMap.has, JsMap.get?_delete]
  by_cases hother : child = other
  · simp [hother]
  · simp [hother, JsMap.has]

section DropChild

variable {childrenOf : JsMap String (JsSet String)} {parent child : String}

theorem dropChild_others {other : String} (hother : other ≠ parent) :
    (dropChild childrenOf parent child).get? other = childrenOf.get? other := by
  unfold dropChild
  split
  · rfl
  · simp only
    split
    · rw [JsMap.get?_delete, if_neg hother.symm]
    · exact JsMap.get?_set_ne _ _ hother.symm

theorem members_dropChild (other : String) :
    (members (dropChild childrenOf parent child) parent).has other = true ↔
      child ≠ other ∧ (members childrenOf parent).has other = true := by
  unfold dropChild
  cases hset : childrenOf.get? parent with
  | none => simp [members, hset]
  | some set =>
    have hbefore : members childrenOf parent = set := by
      rw [members, hset, Option.getD_some]
    rw [hbefore, ← has_delete]
    simp only
    split
    · rename_i hempty
      rw [members_delete, if_pos rfl, JsSet.has_iff_mem_keys (set.delete child),
        List.length_eq_zero_iff.mp hempty]
      simp
    · rw [members_set, if_pos rfl]

theorem dropChild_nonempty {set : JsSet String} (hmember : (members childrenOf parent).has child)
    (hset : (dropChild childrenOf parent child).get? parent = some set) :
    ∃ other, set.has other = true := by
  unfold dropChild at hset
  cases hbefore : childrenOf.get? parent with
  | none =>
    rw [members, hbefore] at hmember
    cases hmember
  | some before =>
    rw [hbefore] at hset
    simp only at hset
    split at hset
    · rw [JsMap.get?_delete_self] at hset
      cases hset
    · rename_i hnonempty
      rw [JsMap.get?_set_self, Option.some.injEq] at hset
      subst hset
      obtain ⟨other, hother⟩ := List.exists_mem_of_length_pos (Nat.pos_of_ne_zero hnonempty)
      exact ⟨other, (JsSet.has_iff_mem_keys _ other).mpr hother⟩

end DropChild

theorem Flat.revoke (h : R.Flat) (child : String) : (R.revoke child).1.Flat := by
  unfold SubAccountRegistry.revoke
  cases hget : R.parentOf.get? child with
  | none => exact h
  | some d =>
    have hmember := (h.groups.members_iff d.parent child).mpr ⟨d, hget, rfl⟩
    constructor
    · exact h.groups.remove hget (fun _ hparent => dropChild_others hparent) members_dropChild
        (fun _ hset => dropChild_nonempty hmember hset)
    · intro other e he
      obtain ⟨-, he⟩ := JsMap.get?_of_get?_delete he
      rw [JsMap.get?_delete]
      split
      · rfl
      · exact h.depth other e he

theorem Flat.sweep [JsNumber F] (h : R.Flat) (now : F) : (R.sweep now).1.Flat := by
  have hfold : ∀ (entries : List (String × Delegation F)) (acc : SubAccountRegistry F × Nat),
      acc.1.Flat → (entries.foldl (fun acc entry =>
        if entry.2.expired now then ((acc.1.revoke entry.1).1, acc.2 + 1)
        else acc) acc).1.Flat := by
    intro entries
    induction entries with
    | nil =>
      intro acc hacc
      exact hacc
    | cons entry rest ih =>
      intro acc hacc
      rw [List.foldl_cons]
      split
      · exact ih _ (hacc.revoke entry.1)
      · exact ih acc hacc
  exact hfold R.parentOf.entries (R, 0) h

theorem flat_step [JsNumber F] (h : R.Flat) (c : Call F) : (step R c).Flat := by
  cases c with
  | register d verify now => exact h.register d verify now
  | revoke child => exact h.revoke child
  | sweep now => exact h.sweep now

theorem Flat.disjoint (h : R.Flat) (key : String) :
    ¬ (R.parentOf.has key = true ∧ R.childrenOf.has key = true) := by
  rintro ⟨hchild, hparent⟩
  obtain ⟨child, d, hd, rfl⟩ := (h.groups.has_iff key).mp hparent
  rw [JsMap.has, h.depth child d hd] at hchild
  cases hchild

end Invariant

/-! ## One human -/

section Humans

variable [JsNumber F] {R : SubAccountRegistry F}

/-- `key` is delegated by `human`, and the delegation has not expired. -/
def LiveUnder (R : SubAccountRegistry F) (now : F) (human key : String) : Prop :=
  ∃ d, R.parentOf.get? key = some d ∧ d.expired now = false ∧ d.parent = human

theorem rootOf_of_live {now : F} {human key : String} (h : R.LiveUnder now human key) :
    R.rootOf key now = human := by
  obtain ⟨d, hget, hlive, hparent⟩ := h
  unfold rootOf
  rw [hget]
  simp only [hlive, Bool.false_eq_true, if_false]
  exact hparent

theorem rootOf_of_parent {key : String} (h : R.parentOf.get? key = none) (now : F) :
    R.rootOf key now = key := by
  unfold rootOf
  rw [h]

theorem rootOf_cases (R : SubAccountRegistry F) (key : String) (now : F) :
    R.rootOf key now = key ∨ R.LiveUnder now (R.rootOf key now) key := by
  unfold rootOf
  cases hget : R.parentOf.get? key with
  | none => exact .inl rfl
  | some d =>
    simp only
    cases hexpired : d.expired now with
    | true => exact .inl rfl
    | false => exact .inr ⟨d, hget, hexpired, rfl⟩

theorem Flat.rootOf_human (h : R.Flat) {now : F} {human key : String}
    (hlive : R.LiveUnder now human key) : R.rootOf human now = human := by
  obtain ⟨d, hget, -, rfl⟩ := hlive
  exact rootOf_of_parent (h.depth key d hget) now

theorem Flat.rootOf_rootOf (h : R.Flat) (key : String) (now : F) :
    R.rootOf (R.rootOf key now) now = R.rootOf key now := by
  rcases R.rootOf_cases key now with hself | hlive
  · rw [hself, hself]
  · exact h.rootOf_human hlive

theorem distinctHumans_eq_card (R : SubAccountRegistry F) (ids : List String) (now : F) :
    R.distinctHumans ids now = (ids.map fun id => R.rootOf id now).toFinset.card := by
  unfold distinctHumans
  have hroots : (JsSet.addAll (JsMap.empty : JsSet String)
      (ids.map fun id => R.rootOf id now)).keys.toFinset =
        (ids.map fun id => R.rootOf id now).toFinset := by
    ext root
    rw [List.mem_toFinset, List.mem_toFinset, ← JsSet.has_iff_mem_keys, JsSet.has_addAll,
      JsMap.has_empty]
    exact or_iff_left Bool.false_ne_true
  rw [← hroots]
  exact (List.toFinset_card_of_nodup (JsMap.nodup _)).symm

theorem distinctHumans_eq_one {ids : List String} (hne : ids ≠ []) {root : String} {now : F}
    (hroot : ∀ id ∈ ids, R.rootOf id now = root) : R.distinctHumans ids now = 1 := by
  rw [distinctHumans_eq_card, Finset.card_eq_one]
  refine ⟨root, ?_⟩
  obtain ⟨first, hfirst⟩ := List.exists_mem_of_ne_nil ids hne
  ext x
  rw [List.mem_toFinset, Finset.mem_singleton, List.mem_map]
  constructor
  · rintro ⟨id, hid, rfl⟩
    exact hroot id hid
  · rintro rfl
    exact ⟨first, hfirst, hroot first hfirst⟩

theorem Flat.distinctHumans_family (h : R.Flat) {now : F} {human : String} {ids : List String}
    (hne : ids ≠ []) (hfamily : ∀ id ∈ ids, id = human ∨ R.LiveUnder now human id) :
    R.distinctHumans ids now = 1 := by
  have hroot : ∀ id ∈ ids, R.rootOf id now = R.rootOf human now := by
    intro id hid
    rcases hfamily id hid with rfl | hlive
    · rfl
    · rw [rootOf_of_live hlive, h.rootOf_human hlive]
  exact distinctHumans_eq_one hne hroot

/-! ## Every registry -/

/-- What is asked of the graph of sub-accounts. -/
structure Consistent (R : SubAccountRegistry F) : Prop where
  /-- The two maps describe one relation. -/
  mirrored : ∀ parent child,
    (∃ set, R.childrenOf.get? parent = some set ∧ set.has child = true) ↔
      ∃ d, R.parentOf.get? child = some d ∧ d.parent = parent
  nonempty : ∀ parent set, R.childrenOf.get? parent = some set → set.keys ≠ []
  /-- No key is both a parent and a child. -/
  disjoint : ∀ key, ¬ (R.parentOf.has key = true ∧ R.childrenOf.has key = true)
  rootOf_rootOf : ∀ key now, R.rootOf (R.rootOf key now) now = R.rootOf key now
  /-- A human and any of its live sub-accounts count as one. -/
  family : ∀ now human ids, ids ≠ [] → (∀ id ∈ ids, id = human ∨ R.LiveUnder now human id) →
    R.distinctHumans ids now = 1

theorem Flat.consistent (h : R.Flat) : R.Consistent where
  mirrored := by
    intro parent child
    rw [← h.groups.members_iff, members]
    constructor
    · rintro ⟨set, hset, hchild⟩
      rw [hset]
      exact hchild
    · intro hchild
      cases hset : R.childrenOf.get? parent with
      | none =>
        rw [hset] at hchild
        cases hchild
      | some set =>
        rw [hset] at hchild
        exact ⟨set, rfl, hchild⟩
  nonempty := by
    intro parent set hset
    obtain ⟨child, hchild⟩ := h.groups.nonempty parent set hset
    exact List.ne_nil_of_mem ((JsSet.has_iff_mem_keys set child).mp hchild)
  disjoint := h.disjoint
  rootOf_rootOf := h.rootOf_rootOf
  family := fun _ _ _ hne hfamily => h.distinctHumans_family hne hfamily

end Humans

/-- Whatever is registered, revoked and swept, with any delegations, verifiers and times. -/
theorem sub_account_graph [JsNumber F] (calls : List (Call F)) :
    (Run.final step new calls).Consistent :=
  (Run.invariant_reachable flat_new (fun _ c h => flat_step h c) ⟨calls, rfl⟩).consistent

end SubAccountRegistry

end NeuronWeb
