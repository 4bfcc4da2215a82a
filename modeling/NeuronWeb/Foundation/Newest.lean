/-
  Foundation/Newest: keeping the newest of the rows that come by.

  Several loops of the source walk over rows and keep one, or one for each key: a row replaces
  the one kept so far when it is `later`. What such a loop ends with is the first of the newest
  rows (`newest_eq_some_iff`), and what it keeps for a key depends on the rows of that key only
  (`get?_foldl_keepByKey`).
-/
import NeuronWeb.Foundation.JsMap
import Mathlib.Data.List.Induction

set_option autoImplicit false

namespace NeuronWeb.Newest

variable {α K : Type}

/-- How rows compare: `later` is a strict preference among the rows that are `real`, and
holds of no pair with another row in it. -/
structure Ranking (later : α → α → Bool) (real : α → Prop) : Prop where
  asymm : ∀ {x y}, later x y = true → later y x = false
  /-- What is not in between is above or below. -/
  split : ∀ {x y z}, real y → later z x = true → later y x = true ∨ later z y = true
  real_left : ∀ {x y}, later x y = true → real x
  real_right : ∀ {x y}, later x y = true → real y

theorem Ranking.trans {later : α → α → Bool} {real : α → Prop} (h : Ranking later real)
    {x y z : α} (hxy : later x y = true) (hyz : later y z = true) : later x z = true := by
  rcases h.split (y := z) (h.real_right hyz) hxy with hzy | hxz
  · rw [h.asymm hyz] at hzy
    cases hzy
  · exact hxz

/-- One row is compared with the row kept so far. -/
def keep (later : α → α → Bool) : Option α → α → Option α
  | none, r => some r
  | some prev, r => if later r prev then some r else some prev

/-- The row kept after all of `rows`. -/
def newest (later : α → α → Bool) (rows : List α) : Option α := rows.foldl (keep later) none

/-- `n` stands in `rows` behind older rows only, rows that do not compare apart, and in
front of rows that are not newer. -/
def IsNewest (later : α → α → Bool) (real : α → Prop) (rows : List α) (n : α) : Prop :=
  ∃ before after, rows = before ++ n :: after ∧
    (∀ f, before.head? = some f → real f) ∧
    (∀ x ∈ before, later n x = true ∨ ¬ real x) ∧ ∀ x ∈ after, later x n = false

variable {later : α → α → Bool} {real : α → Prop}

@[simp] theorem newest_nil : newest later [] = none := rfl

@[simp] theorem newest_concat (rows : List α) (x : α) :
    newest later (rows ++ [x]) = keep later (newest later rows) x := by
  rw [newest, List.foldl_append]
  rfl

variable {rows : List α}

theorem IsNewest.mem {n : α} (h : IsNewest later real rows n) : n ∈ rows := by
  obtain ⟨before, after, rfl, _⟩ := h
  simp

theorem exists_newest (later : α → α → Bool) (h : rows ≠ []) : ∃ n, newest later rows = some n := by
  induction rows using List.reverseRecOn with
  | nil => exact absurd rfl h
  | append_singleton rows x _ =>
    rw [newest_concat]
    cases newest later rows with
    | none => exact ⟨x, rfl⟩
    | some p =>
      by_cases hlater : later x p = true
      · exact ⟨x, if_pos hlater⟩
      · exact ⟨p, if_neg hlater⟩

theorem newest_mem {n : α} (h : newest later rows = some n) : n ∈ rows := by
  induction rows using List.reverseRecOn generalizing n with
  | nil => cases h
  | append_singleton rows x ih =>
    rw [newest_concat] at h
    cases hp : newest later rows with
    | none =>
      rw [hp] at h
      rw [← Option.some.inj h]
      simp
    | some p =>
      rw [hp] at h
      cases hlater : later x p with
      | true =>
        have hxn : some x = some n := by simpa [keep, hlater] using h
        rw [← Option.some.inj hxn]
        simp
      | false =>
        have hpn : some p = some n := by simpa [keep, hlater] using h
        rw [← Option.some.inj hpn]
        exact List.mem_append_left _ (ih hp)

/-- A newer row replaces the row kept, however many rows were behind it. -/
theorem isNewest_replaced (hR : Ranking later real) {p x : α}
    (h : IsNewest later real rows p) (hlater : later x p = true) :
    IsNewest later real (rows ++ [x]) x := by
  obtain ⟨before, after, rfl, hhead, hbefore, hafter⟩ := h
  refine ⟨before ++ p :: after, [], rfl, ?_, ?_, by simp⟩
  · intro f hf
    cases before with
    | nil =>
      rw [← Option.some.inj hf]
      exact hR.real_right hlater
    | cons g before => exact hhead f hf
  · intro y hy
    rcases List.mem_append.mp hy with hy | hy
    · rcases hbefore y hy with hpy | hblank
      · exact Or.inl (hR.trans hlater hpy)
      · exact Or.inr hblank
    · rcases List.mem_cons.mp hy with rfl | hy
      · exact Or.inl hlater
      · by_cases hreal : real y
        · rcases hR.split hreal hlater with hyp | hxy
          · rw [hafter y hy] at hyp
            cases hyp
          · exact Or.inl hxy
        · exact Or.inr hreal

theorem isNewest_kept {p x : α} (h : IsNewest later real rows p)
    (hlater : later x p = false) : IsNewest later real (rows ++ [x]) p := by
  obtain ⟨before, after, rfl, hhead, hbefore, hafter⟩ := h
  refine ⟨before, after ++ [x], by simp, hhead, hbefore, ?_⟩
  intro y hy
  rcases List.mem_append.mp hy with hy | hy
  · exact hafter y hy
  · rw [List.mem_singleton.mp hy]
    exact hlater

theorem isNewest_of_newest (hR : Ranking later real) {n : α}
    (h : newest later rows = some n) : IsNewest later real rows n := by
  induction rows using List.reverseRecOn generalizing n with
  | nil => cases h
  | append_singleton rows x ih =>
    rw [newest_concat] at h
    cases hp : newest later rows with
    | none =>
      have hnil : rows = [] := by
        by_contra hne
        obtain ⟨m, hm⟩ := exists_newest later hne
        rw [hp] at hm
        cases hm
      rw [hp] at h
      rw [hnil, ← Option.some.inj h]
      exact ⟨[], [], rfl, by simp, by simp, by simp⟩
    | some p =>
      rw [hp] at h
      cases hlater : later x p with
      | true =>
        rw [← Option.some.inj ((if_pos hlater).symm.trans h)]
        exact isNewest_replaced hR (ih hp) hlater
      | false =>
        have hpn : some p = some n := by simpa [keep, hlater] using h
        rw [← Option.some.inj hpn]
        exact isNewest_kept (ih hp) hlater

theorem foldl_keep_of_kept {n : α} (h : ∀ x ∈ rows, later x n = false) :
    rows.foldl (keep later) (some n) = some n := by
  induction rows with
  | nil => rfl
  | cons x rows ih =>
    have hx : later x n = false := h x List.mem_cons_self
    rw [List.foldl_cons, keep, hx]
    exact ih fun y hy => h y (List.mem_cons_of_mem x hy)

theorem IsNewest.real_of_head (hR : Ranking later real) {p : α}
    (h : IsNewest later real rows p) (hhead : ∀ f, rows.head? = some f → real f) : real p := by
  obtain ⟨before, after, rfl, _, hbefore, _⟩ := h
  cases before with
  | nil => exact hhead p rfl
  | cons f before =>
    rcases hbefore f List.mem_cons_self with hpf | hblank
    · exact hR.real_left hpf
    · exact absurd (hhead f rfl) hblank

/-- What the loop keeps is the first of the newest rows. -/
theorem newest_eq_some_iff (hR : Ranking later real) {n : α} :
    newest later rows = some n ↔ IsNewest later real rows n := by
  constructor
  · exact isNewest_of_newest hR
  · rintro ⟨before, after, rfl, hhead, hbefore, hafter⟩
    have hreach : keep later (newest later before) n = some n := by
      cases hp : newest later before with
      | none => rfl
      | some p =>
        have hnewest := isNewest_of_newest hR hp
        rcases hbefore p hnewest.mem with hlater | hblank
        · exact if_pos hlater
        · exact absurd (hnewest.real_of_head hR hhead) hblank
    rw [newest, List.foldl_append, List.foldl_cons]
    change after.foldl (keep later) (keep later (newest later before) n) = some n
    rw [hreach]
    exact foldl_keep_of_kept hafter

theorem IsNewest.unique (hR : Ranking later real) {n m : α}
    (hn : IsNewest later real rows n) (hm : IsNewest later real rows m) : n = m := by
  have h : some n = some m :=
    ((newest_eq_some_iff hR).mpr hn).symm.trans ((newest_eq_some_iff hR).mpr hm)
  exact Option.some.inj h

theorem IsNewest.filter {n : α} (h : IsNewest later real rows n)
    (hreal : ∀ x ∈ rows, real x) {p : α → Bool} (hp : p n = true) :
    IsNewest later real (rows.filter p) n := by
  obtain ⟨before, after, rfl, _, hbefore, hafter⟩ := h
  refine ⟨before.filter p, after.filter p, ?_, ?_, ?_, ?_⟩
  · rw [List.filter_append, List.filter_cons_of_pos hp]
  · intro f hf
    have hmem : f ∈ before := (List.mem_filter.mp (List.mem_of_head? hf)).1
    exact hreal f (List.mem_append_left _ hmem)
  · exact fun x hx => hbefore x (List.mem_filter.mp hx).1
  · exact fun x hx => hafter x (List.mem_filter.mp hx).1

/-- No row is later than the newest. -/
theorem IsNewest.not_later (hR : Ranking later real) {n x : α}
    (h : IsNewest later real rows n) (hx : x ∈ rows) : later x n = false := by
  obtain ⟨before, after, rfl, _, hbefore, hafter⟩ := h
  by_contra hne
  have hlater : later x n = true := by simpa using hne
  rcases List.mem_append.mp hx with hx | hx
  · rcases hbefore x hx with hback | hblank
    · rw [hR.asymm hback] at hlater
      cases hlater
    · exact hblank (hR.real_left hlater)
  · rcases List.mem_cons.mp hx with rfl | hx
    · exact hne (hR.asymm hlater)
    · exact hne (hafter x hx)

/-- A row that the newest is later than changes nothing, wherever it comes in. -/
theorem IsNewest.insert_older (hR : Ranking later real) {front back : List α} {n r : α}
    (h : IsNewest later real (front ++ back) n) (hlater : later n r = true) :
    IsNewest later real (front ++ r :: back) n := by
  have hr : real r := hR.real_right hlater
  obtain ⟨before, after, happ, hhead, hbefore, hafter⟩ := h
  rcases List.append_eq_append_iff.mp happ with ⟨middle, rfl, rfl⟩ | ⟨middle, rfl, hback⟩
  · -- the row comes in ahead of the newest
    refine ⟨front ++ r :: middle, after, by simp, ?_, ?_, hafter⟩
    · intro f hf
      cases front with
      | nil =>
        rw [← Option.some.inj hf]
        exact hr
      | cons g front => exact hhead f hf
    · intro x hx
      rcases List.mem_append.mp hx with hx | hx
      · exact hbefore x (List.mem_append_left _ hx)
      · rcases List.mem_cons.mp hx with rfl | hx
        · exact Or.inl hlater
        · exact hbefore x (List.mem_append_right _ hx)
  · cases middle with
    | nil =>
      -- right ahead of it
      rw [List.nil_append] at hback
      refine ⟨before ++ [r], after, by simp [← hback], ?_, ?_, hafter⟩
      · intro f hf
        cases before with
        | nil =>
          rw [← Option.some.inj hf]
          exact hr
        | cons g before => exact hhead f hf
      · intro x hx
        rcases List.mem_append.mp hx with hx | hx
        · exact hbefore x hx
        · rw [List.mem_singleton.mp hx]
          exact Or.inl hlater
    | cons m middle =>
      -- behind it
      rw [List.cons_append, List.cons.injEq] at hback
      obtain ⟨rfl, rfl⟩ := hback
      refine ⟨before, middle ++ r :: back, by simp, hhead, hbefore, ?_⟩
      intro x hx
      rcases List.mem_append.mp hx with hx | hx
      · exact hafter x (List.mem_append_left _ hx)
      · rcases List.mem_cons.mp hx with rfl | hx
        · exact hR.asymm hlater
        · exact hafter x (List.mem_append_right _ hx)

theorem isNewest_of_forall_eq (hR : Ranking later real) {rows : List α} {n : α} (hn : n ∈ rows)
    (hall : ∀ x ∈ rows, x = n) : IsNewest later real rows n := by
  have hirrefl : later n n = false := by
    by_contra h
    have htrue : later n n = true := by simpa using h
    rw [hR.asymm htrue] at htrue
    cases htrue
  obtain ⟨f, rest, rfl⟩ := List.exists_cons_of_ne_nil (List.ne_nil_of_mem hn)
  have hf : f = n := hall f List.mem_cons_self
  subst hf
  refine ⟨[], rest, rfl, by simp, by simp, ?_⟩
  intro x hx
  rw [hall x (List.mem_cons_of_mem _ hx)]
  exact hirrefl

/-! ## One row for each key -/

variable [DecidableEq K]

/-- One row is compared with the row kept so far for its key. -/
def keepByKey (key : α → K) (later : α → α → Bool) (m : JsMap K α) (r : α) : JsMap K α :=
  match m.get? (key r) with
  | none => m.set (key r) r
  | some prev => if later r prev then m.set (key r) r else m

theorem get?_keepByKey (key : α → K) (m : JsMap K α) (r : α) (k : K) :
    (keepByKey key later m r).get? k =
      if key r = k then keep later (m.get? k) r else m.get? k := by
  unfold keepByKey
  by_cases hk : key r = k
  · subst hk
    rw [if_pos rfl]
    cases hm : m.get? (key r) with
    | none => simp [keep]
    | some prev =>
      by_cases hlater : later r prev = true
      · simp [keep, hlater]
      · simp [keep, hlater, hm]
  · rw [if_neg hk]
    cases m.get? (key r) with
    | none => exact JsMap.get?_set_ne m r hk
    | some prev =>
      by_cases hlater : later r prev = true
      · simp [hlater, JsMap.get?_set_ne m r hk]
      · simp [hlater]

theorem get?_foldl_keepByKey (key : α → K) (rows : List α) (k : K) :
    (rows.foldl (keepByKey key later) JsMap.empty).get? k =
      newest later (rows.filter fun r => key r = k) := by
  induction rows using List.reverseRecOn with
  | nil => rfl
  | append_singleton rows r ih =>
    rw [List.foldl_append, List.foldl_cons, List.foldl_nil, get?_keepByKey, ih,
      List.filter_append]
    by_cases hk : key r = k
    · simp [hk]
    · simp [hk]

end NeuronWeb.Newest
