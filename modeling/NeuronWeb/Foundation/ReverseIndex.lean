import NeuronWeb.Foundation.JsMap

set_option autoImplicit false

/-!
# A map and its reverse index

A registry that is asked in both directions keeps two maps: the records by key, and an index
from some property of a record back to its key.

`Mirrors` is the index of a property that belongs to one key only (a name). `Groups` is the
index of a property that many keys share (a parent), which keeps a set of keys.
-/

namespace NeuronWeb.ReverseIndex

variable {K N R : Type} [DecidableEq K] [DecidableEq N]

/-! ## One key for a name -/

section Names

/-- The index has exactly the names that the records carry. -/
def Mirrors (name : R → Option N) (records : JsMap K R) (index : JsMap N K) : Prop :=
  ∀ n k, index.get? n = some k ↔ ∃ r, records.get? k = some r ∧ name r = some n

variable {name : R → Option N} {records : JsMap K R} {index : JsMap N K} {k : K} {r : R}

theorem mirrors_empty : Mirrors name (JsMap.empty : JsMap K R) (JsMap.empty : JsMap N K) := by
  intro n k
  constructor
  · intro hindex
    cases hindex
  · rintro ⟨r, hr, -⟩
    cases hr

section

variable (h : Mirrors name records index)
include h

theorem Mirrors.unique {k' : K} {r' : R} {n : N}
    (hr : records.get? k = some r) (hr' : records.get? k' = some r') (hn : name r = some n)
    (hn' : name r' = some n) : k = k' :=
  Option.some.inj (((h n k).mpr ⟨r, hr, hn⟩).symm.trans ((h n k').mpr ⟨r', hr', hn'⟩))

theorem Mirrors.congr {records' : JsMap K R}
    (hsame : ∀ j, records'.get? j = records.get? j) : Mirrors name records' index := by
  intro n j
  rw [hsame]
  exact h n j

/-- A record without a name is not in the index. -/
theorem Mirrors.insert_unnamed (hfresh : records.get? k = none)
    (hname : name r = none) : Mirrors name (records.set k r) index := by
  intro n j
  rw [h n j, JsMap.get?_set]
  by_cases hj : k = j
  · subst hj
    rw [if_pos rfl, hfresh]
    constructor
    · rintro ⟨_, hnone, -⟩
      cases hnone
    · rintro ⟨r', hr', hn⟩
      cases hr'
      rw [hname] at hn
      cases hn
  · rw [if_neg hj]

/-- A new record with a name that is free. -/
theorem Mirrors.insert (hfresh : records.get? k = none) {n : N}
    (hname : name r = some n) (hfree : index.get? n = none) :
    Mirrors name (records.set k r) (index.set n k) := by
  intro m j
  rw [JsMap.get?_set, JsMap.get?_set]
  by_cases hm : n = m
  · subst hm
    rw [if_pos rfl]
    constructor
    · intro hj
      cases hj
      exact ⟨r, if_pos rfl, hname⟩
    · rintro ⟨r', hr', hn'⟩
      by_cases hj : k = j
      · rw [hj]
      · rw [if_neg hj] at hr'
        have htaken := (h n j).mpr ⟨r', hr', hn'⟩
        rw [hfree] at htaken
        cases htaken
  · rw [if_neg hm, h m j]
    by_cases hj : k = j
    · subst hj
      rw [if_pos rfl, hfresh]
      constructor
      · rintro ⟨_, hnone, -⟩
        cases hnone
      · rintro ⟨r', hr', hn'⟩
        cases hr'
        exact absurd (Option.some.inj (hname.symm.trans hn')) hm
    · rw [if_neg hj]

/-- Deleting a record and its name; a record without a name may delete a name that nobody has. -/
theorem Mirrors.remove (hr : records.get? k = some r) {old : N}
    (hname : ∀ n, name r = some n → n = old) (hold : ∀ j, index.get? old = some j → j = k) :
    Mirrors name (records.delete k) (index.delete old) := by
  intro n j
  rw [JsMap.get?_delete, JsMap.get?_delete]
  constructor
  · intro hindex
    by_cases hn : old = n
    · rw [if_pos hn] at hindex
      cases hindex
    · rw [if_neg hn] at hindex
      obtain ⟨r', hr', hn'⟩ := (h n j).mp hindex
      have hj : k ≠ j := by
        rintro rfl
        rw [hr] at hr'
        cases hr'
        exact hn (hname n hn').symm
      exact ⟨r', by rw [if_neg hj, hr'], hn'⟩
  · rintro ⟨r', hr', hn'⟩
    by_cases hj : k = j
    · rw [if_pos hj] at hr'
      cases hr'
    · rw [if_neg hj] at hr'
      have hindex := (h n j).mpr ⟨r', hr', hn'⟩
      have hn : old ≠ n := by
        rintro rfl
        exact hj (hold j hindex).symm
      rw [if_neg hn, hindex]

/-- A record is replaced by one with the same name. -/
theorem Mirrors.replace (hr : records.get? k = some r) {r' : R}
    (hname : name r' = name r) : Mirrors name (records.set k r') index := by
  intro n j
  rw [h n j, JsMap.get?_set]
  by_cases hj : k = j
  · subst hj
    rw [if_pos rfl, hr]
    constructor
    · rintro ⟨r₀, hr₀, hn⟩
      cases hr₀
      exact ⟨r', rfl, hname.trans hn⟩
    · rintro ⟨r₀, hr₀, hn⟩
      cases hr₀
      exact ⟨r, rfl, hname.symm.trans hn⟩
  · rw [if_neg hj]

/-- A record moves to a name that nobody else has: the old name is deleted first. -/
theorem Mirrors.rename (hr : records.get? k = some r) {r' : R}
    {old n : N} (hname : ∀ m, name r = some m → m = old)
    (hold : ∀ j, index.get? old = some j → j = k) (hname' : name r' = some n)
    (hfree : ∀ j, index.get? n = some j → j = k) :
    Mirrors name (records.set k r') ((index.delete old).set n k) := by
  have hremoved := h.remove hr hname hold
  have hunused : (index.delete old).get? n = none := by
    cases htaken : (index.delete old).get? n with
    | none => rfl
    | some j =>
      obtain ⟨r₀, hr₀, -⟩ := (hremoved n j).mp htaken
      obtain ⟨hne, -⟩ := JsMap.get?_of_get?_delete hr₀
      obtain ⟨-, hindex⟩ := JsMap.get?_of_get?_delete htaken
      exact absurd (hfree j hindex).symm hne
  refine (hremoved.insert (JsMap.get?_delete_self records k) hname' hunused).congr fun j => ?_
  rw [JsMap.get?_set, JsMap.get?_set, JsMap.get?_delete]
  by_cases hj : k = j
  · rw [if_pos hj, if_pos hj]
  · rw [if_neg hj, if_neg hj, if_neg hj]

end

end Names

/-! ## A set of keys for a group -/

section Sets

/-- The members that the index has under a group. -/
def members (index : JsMap N (JsSet K)) (g : N) : JsSet K := (index.get? g).getD JsMap.empty

/-- The index has every key under its group, and no empty group. -/
structure Groups (group : R → N) (records : JsMap K R) (index : JsMap N (JsSet K)) : Prop where
  members_iff : ∀ g k, (members index g).has k = true ↔
    ∃ r, records.get? k = some r ∧ group r = g
  nonempty : ∀ g s, index.get? g = some s → ∃ k, s.has k = true

variable {group : R → N} {records : JsMap K R} {index : JsMap N (JsSet K)} {k : K} {r : R}

theorem groups_empty :
    Groups group (JsMap.empty : JsMap K R) (JsMap.empty : JsMap N (JsSet K)) where
  members_iff := by
    intro g k
    constructor
    · intro hmem
      cases hmem
    · rintro ⟨r, hr, -⟩
      cases hr
  nonempty := by
    intro g s hs
    cases hs

omit [DecidableEq K] in
theorem members_set (index : JsMap N (JsSet K)) (g g' : N) (s : JsSet K) :
    members (index.set g s) g' = if g = g' then s else members index g' := by
  unfold members
  rw [JsMap.get?_set]
  split <;> rfl

omit [DecidableEq K] in
theorem members_delete (index : JsMap N (JsSet K)) (g g' : N) :
    members (index.delete g) g' = if g = g' then JsMap.empty else members index g' := by
  unfold members
  rw [JsMap.get?_delete]
  split <;> rfl

/-- A group is in the index exactly when some record is in it. -/
theorem Groups.has_iff (h : Groups group records index) (g : N) :
    index.has g = true ↔ ∃ k r, records.get? k = some r ∧ group r = g := by
  rw [JsMap.has_iff]
  constructor
  · rintro ⟨s, hs⟩
    obtain ⟨k, hk⟩ := h.nonempty g s hs
    have hmem : (members index g).has k = true := by
      rw [members, hs]
      exact hk
    exact ⟨k, (h.members_iff g k).mp hmem⟩
  · rintro ⟨k, hk⟩
    have hmem := (h.members_iff g k).mpr hk
    unfold members at hmem
    cases hs : index.get? g with
    | none =>
      rw [hs] at hmem
      cases hmem
    | some s => exact ⟨s, rfl⟩

/-- A record that is new, or replaces one of the same group, is added to its group. -/
theorem Groups.insert (h : Groups group records index)
    (hgroup : ∀ old, records.get? k = some old → group old = group r) :
    Groups group (records.set k r)
      (index.set (group r) (JsSet.add (members index (group r)) k)) where
  members_iff := by
    intro g j
    rw [members_set, JsMap.get?_set]
    by_cases hg : group r = g
    · subst hg
      rw [if_pos rfl, JsSet.has_add, Bool.or_eq_true, decide_eq_true_eq, h.members_iff]
      by_cases hj : k = j
      · rw [if_pos hj]
        exact iff_of_true (.inl hj) ⟨r, rfl, rfl⟩
      · rw [if_neg hj, or_iff_right hj]
    · rw [if_neg hg, h.members_iff]
      by_cases hj : k = j
      · subst hj
        rw [if_pos rfl]
        constructor
        · rintro ⟨old, hold, hg'⟩
          exact absurd ((hgroup old hold).symm.trans hg') hg
        · rintro ⟨r', hr', hg'⟩
          cases hr'
          exact absurd hg' hg
      · rw [if_neg hj]
  nonempty := by
    intro g s hs
    rw [JsMap.get?_set] at hs
    split at hs
    · cases hs
      exact ⟨k, JsSet.has_add_self _ _⟩
    · exact h.nonempty g s hs

/-- Deleting a record, when the index loses the key from its group, and the group itself when
the key was the last one. -/
theorem Groups.remove (h : Groups group records index) (hr : records.get? k = some r)
    {index' : JsMap N (JsSet K)} (hothers : ∀ g, g ≠ group r → index'.get? g = index.get? g)
    (hmembers : ∀ j, (members index' (group r)).has j = true ↔
      k ≠ j ∧ (members index (group r)).has j = true)
    (hnonempty : ∀ s, index'.get? (group r) = some s → ∃ j, s.has j = true) :
    Groups group (records.delete k) index' where
  members_iff := by
    intro g j
    rw [JsMap.get?_delete]
    by_cases hg : g = group r
    · subst hg
      rw [hmembers, h.members_iff]
      by_cases hj : k = j
      · rw [if_pos hj]
        constructor
        · intro hkept
          exact absurd hj hkept.1
        · rintro ⟨r', hr', -⟩
          cases hr'
      · rw [if_neg hj]
        exact and_iff_right hj
    · have hsame : members index' g = members index g := by rw [members, hothers g hg, members]
      rw [hsame, h.members_iff]
      by_cases hj : k = j
      · subst hj
        rw [if_pos rfl, hr]
        constructor
        · rintro ⟨r', hr', hg'⟩
          cases hr'
          exact absurd hg'.symm hg
        · rintro ⟨r', hr', -⟩
          cases hr'
      · rw [if_neg hj]
  nonempty := by
    intro g s hs
    by_cases hg : g = group r
    · subst hg
      exact hnonempty s hs
    · rw [hothers g hg] at hs
      exact h.nonempty g s hs

end Sets

end NeuronWeb.ReverseIndex
