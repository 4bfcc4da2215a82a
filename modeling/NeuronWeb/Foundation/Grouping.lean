import NeuronWeb.Foundation.JsMap

set_option autoImplicit false

/-!
# Grouping by a key

`groupOn key l` is the loop that the source writes wherever it groups: look the group of an
item up, start an empty one where there is none, push the item and store the group again.
Each key has the items of the list with that key, in their order.
-/

namespace NeuronWeb

variable {α κ : Type} [DecidableEq κ] (key : α → κ)

/-- Push one item onto the group of its key. -/
def pushOn (groups : JsMap κ (List α)) (a : α) : JsMap κ (List α) :=
  groups.set (key a) ((groups.get? (key a)).getD [] ++ [a])

/-- The items of a list by their keys, keys in the order in which they first occur. -/
def groupOn (l : List α) : JsMap κ (List α) := l.foldl (pushOn key) .empty

variable {key}

theorem getD_foldl_pushOn (l : List α) (groups : JsMap κ (List α)) (k : κ) :
    ((l.foldl (pushOn key) groups).get? k).getD [] =
      (groups.get? k).getD [] ++ l.filter fun a => decide (key a = k) := by
  induction l generalizing groups with
  | nil => rw [List.foldl_nil, List.filter_nil, List.append_nil]
  | cons a rest ih =>
    rw [List.foldl_cons, ih, pushOn, JsMap.get?_set]
    split
    case isTrue heq =>
      rw [List.filter_cons_of_pos (by simpa using heq), Option.getD_some, List.append_assoc, heq]
      rfl
    case isFalse hne => rw [List.filter_cons_of_neg (by simpa using hne)]

theorem getD_groupOn (l : List α) (k : κ) :
    ((groupOn key l).get? k).getD [] = l.filter fun a => decide (key a = k) :=
  (getD_foldl_pushOn l .empty k).trans (List.nil_append _)

theorem has_foldl_pushOn (l : List α) (groups : JsMap κ (List α)) (k : κ) :
    (l.foldl (pushOn key) groups).has k = true ↔ groups.has k = true ∨ ∃ a ∈ l, key a = k := by
  induction l generalizing groups with
  | nil => simp
  | cons a rest ih =>
    rw [List.foldl_cons, ih, pushOn, JsMap.has_set, Bool.or_eq_true, decide_eq_true_iff]
    simp only [List.mem_cons, exists_eq_or_imp]
    tauto

theorem mem_keys_groupOn (l : List α) (k : κ) :
    k ∈ (groupOn key l).keys ↔ ∃ a ∈ l, key a = k := by
  rw [JsMap.mem_keys_iff, ← JsMap.has_iff]
  exact (has_foldl_pushOn l .empty k).trans (by simp)

theorem values_groupOn (l : List α) : (groupOn key l).values =
    (groupOn key l).keys.map fun k => l.filter fun a => decide (key a = k) := by
  rw [JsMap.values, JsMap.keys, List.map_map]
  refine List.map_congr_left fun e he => ?_
  have hget := ((groupOn key l).get?_eq_some_iff e.1 e.2).mpr he
  rw [Function.comp_apply, ← getD_groupOn, hget, Option.getD_some]

end NeuronWeb
