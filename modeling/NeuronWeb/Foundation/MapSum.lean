import NeuronWeb.Foundation.JsMap
import Mathlib.Algebra.Order.BigOperators.Group.List
import Mathlib.Algebra.Order.Group.Nat
import Mathlib.Data.Int.Basic

set_option autoImplicit false

/-!
# Sums over a map

A conserved quantity is a sum over the values of a map, and a call changes one entry
at a time.  `total_set` and `total_delete` say what that does to the sum; they are
stated without subtraction, so that they hold in any commutative monoid.
-/

namespace NeuronWeb.JsMap

variable {K V M : Type} [AddCommMonoid M]

/-- The sum of `f` over the values. -/
def total (f : V → M) (m : JsMap K V) : M := (m.values.map f).sum

@[simp] theorem total_empty (f : V → M) : (empty : JsMap K V).total f = 0 := rfl

theorem total_one (m : JsMap K V) : m.total (fun _ => (1 : Int)) = m.keys.length := by
  simp [total, values, keys, Function.comp_def]

variable [DecidableEq K]

theorem sum_insert (f : V → M) (k : K) (v : V) (l : List (K × V)) :
    (((insert k v l).map Prod.snd).map f).sum + (find k l).elim 0 f =
      ((l.map Prod.snd).map f).sum + f v := by
  induction l with
  | nil => simp [insert, find]
  | cons e rest ih =>
    obtain ⟨k', v'⟩ := e
    unfold insert find
    split
    · simp only [List.map_cons, List.sum_cons, Option.elim_some]
      ac_rfl
    · simp only [List.map_cons, List.sum_cons]
      rw [add_assoc, ih, add_assoc]

theorem total_set (f : V → M) (m : JsMap K V) (k : K) (v : V) :
    (m.set k v).total f + (m.get? k).elim 0 f = m.total f + f v :=
  sum_insert f k v m.entries

theorem sum_filter_ne (f : V → M) (k : K) {l : List (K × V)} (nodup : (l.map Prod.fst).Nodup) :
    (((l.filter fun e => decide (e.1 ≠ k)).map Prod.snd).map f).sum + (find k l).elim 0 f =
      ((l.map Prod.snd).map f).sum := by
  induction l with
  | nil => simp [find]
  | cons e rest ih =>
    obtain ⟨k', v'⟩ := e
    simp only [List.map_cons, List.nodup_cons] at nodup
    unfold find
    split
    · rename_i hk
      subst hk
      -- the keys are distinct, so the rest is kept as it is
      have hrest : rest.filter (fun e => decide (e.1 ≠ k')) = rest := by
        rw [List.filter_eq_self]
        intro e he
        have hne : e.1 ≠ k' := fun h => nodup.1 (h ▸ List.mem_map_of_mem he)
        simp [hne]
      simp only [List.filter_cons, ne_eq, not_true_eq_false, decide_false, Bool.false_eq_true,
        if_false, Option.elim_some, List.map_cons, List.sum_cons]
      rw [add_comm]
      exact congrArg (fun l : List (K × V) => f v' + ((l.map Prod.snd).map f).sum) hrest
    · rename_i hk
      simp only [List.filter_cons, ne_eq, hk, not_false_eq_true, decide_true, if_true,
        List.map_cons, List.sum_cons]
      rw [add_assoc]
      exact congrArg (f v' + ·) (ih nodup.2)

theorem total_delete (f : V → M) (m : JsMap K V) (k : K) :
    (m.delete k).total f + (m.get? k).elim 0 f = m.total f :=
  sum_filter_ne f k m.nodup

theorem total_set_of_fresh (f : V → M) {m : JsMap K V} {k : K} (h : m.get? k = none) (v : V) :
    (m.set k v).total f = m.total f + f v := by
  have hset := total_set f m k v
  rwa [h, Option.elim_none, add_zero] at hset

omit [DecidableEq K] in
theorem total_filter_le (f : V → Nat) (m : JsMap K V) (p : K → V → Bool) :
    (m.filter p).total f ≤ m.total f :=
  ((List.filter_sublist.map Prod.snd).map f).sum_le_sum fun _ _ => Nat.zero_le _

omit [DecidableEq K] in
theorem nodup_entries (m : JsMap K V) : m.entries.Nodup := m.nodup.of_map

theorem entries_perm {m m' : JsMap K V} (h : ∀ k, m.get? k = m'.get? k) :
    m.entries.Perm m'.entries := by
  rw [List.perm_ext_iff_of_nodup m.nodup_entries m'.nodup_entries]
  rintro ⟨k, v⟩
  rw [← get?_eq_some_iff, ← get?_eq_some_iff, h]

theorem total_congr (f : V → M) {m m' : JsMap K V} (h : ∀ k, m.get? k = m'.get? k) :
    m.total f = m'.total f :=
  (((entries_perm h).map Prod.snd).map f).sum_eq

theorem get?_of_perm {m m' : JsMap K V} (h : m.entries.Perm m'.entries) (k : K) :
    m.get? k = m'.get? k := by
  ext v
  rw [get?_eq_some_iff, get?_eq_some_iff, h.mem_iff]

section Values

variable {W : Type}

omit [DecidableEq K] in
/-- The same keys, with other values. -/
def mapValues (f : V → W) (m : JsMap K V) : JsMap K W where
  entries := m.entries.map fun e => (e.1, f e.2)
  nodup := by
    rw [List.map_map]
    exact m.nodup

theorem get?_mapValues (f : V → W) (m : JsMap K V) (k : K) :
    (m.mapValues f).get? k = (m.get? k).map f :=
  find_map f k m.entries

omit [DecidableEq K] in
theorem values_mapValues (f : V → W) (m : JsMap K V) :
    (m.mapValues f).values = m.values.map f := by
  rw [values, values, mapValues, List.map_map, List.map_map]
  rfl

end Values

end NeuronWeb.JsMap
