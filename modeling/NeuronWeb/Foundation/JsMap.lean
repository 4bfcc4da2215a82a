import Mathlib.Data.List.Nodup

set_option autoImplicit false

/-!
# Insertion-ordered maps and sets

The source keeps its state in `Map` and `Set` objects. Both iterate in insertion order,
re-setting a present key keeps its position, and iteration order is observable (the last holder
in a custody map, the order in which tallies are visited). `JsMap` is that structure: an
association list whose keys are pairwise distinct, the distinctness being a field so that no
operation can produce a map with two entries for one key.
-/

namespace NeuronWeb

/-- An insertion-ordered finite map. -/
structure JsMap (K V : Type) where
  /-- The entries, oldest key first. -/
  entries : List (K × V)
  /-- No key occurs twice. -/
  nodup : (entries.map Prod.fst).Nodup

namespace JsMap

variable {K V : Type}

/-- The map with no entries. -/
def empty : JsMap K V := ⟨[], List.nodup_nil⟩

instance : Inhabited (JsMap K V) := ⟨empty⟩

/-- The keys, in iteration order. -/
def keys (m : JsMap K V) : List K := m.entries.map Prod.fst

/-- The values, in iteration order. -/
def values (m : JsMap K V) : List V := m.entries.map Prod.snd

/-! ## Keeping some entries -/

/-- Delete every entry that fails `p`: the loop `for (const [k, v] of m) if (!p) m.delete(k)`. -/
def filter (p : K → V → Bool) (m : JsMap K V) : JsMap K V where
  entries := m.entries.filter fun e => p e.1 e.2
  nodup := m.nodup.sublist ((List.filter_sublist).map Prod.fst)

variable [DecidableEq K]

/-! ## Lookup -/

/-- First value stored under `k` in an association list. -/
def find (k : K) : List (K × V) → Option V
  | [] => none
  | (k', v) :: rest => if k' = k then some v else find k rest

/-- `map.get(k)`. -/
def get? (m : JsMap K V) (k : K) : Option V := find k m.entries

/-- `map.has(k)`. -/
def has (m : JsMap K V) (k : K) : Bool := (m.get? k).isSome

theorem find_nil (k : K) : find k ([] : List (K × V)) = none := rfl

theorem find_cons (k k' : K) (v : V) (l : List (K × V)) :
    find k ((k', v) :: l) = if k' = k then some v else find k l := (rfl)

theorem find_map {W : Type} (f : V → W) (k : K) (l : List (K × V)) :
    find k (l.map fun e => (e.1, f e.2)) = (find k l).map f := by
  induction l with
  | nil => rfl
  | cons e l ih =>
    obtain ⟨k', v⟩ := e
    simp only [List.map_cons, find_cons, ih]
    split <;> rfl

theorem mem_of_find {k : K} {v : V} {l : List (K × V)} (h : find k l = some v) : (k, v) ∈ l := by
  induction l with
  | nil => cases h
  | cons e rest ih =>
    obtain ⟨k', v'⟩ := e
    rw [find_cons] at h
    split at h
    case isTrue hkey =>
      cases h
      rw [← hkey]
      exact List.mem_cons_self ..
    case isFalse => exact List.mem_cons_of_mem _ (ih h)

theorem exists_find {k : K} {l : List (K × V)} (h : k ∈ l.map Prod.fst) :
    ∃ v, find k l = some v := by
  induction l with
  | nil => cases h
  | cons e l ih =>
    obtain ⟨k', v⟩ := e
    rw [find_cons]
    split
    case isTrue => exact ⟨v, rfl⟩
    case isFalse hne => exact ih ((List.mem_cons.mp h).resolve_left (Ne.symm hne))

theorem find_eq_some_iff {l : List (K × V)} (nodup : (l.map Prod.fst).Nodup)
    (k : K) (v : V) : find k l = some v ↔ (k, v) ∈ l := by
  induction l with
  | nil => simp [find_nil]
  | cons e rest ih =>
    obtain ⟨k', v'⟩ := e
    simp only [List.map_cons, List.nodup_cons] at nodup
    by_cases hk : k' = k
    · subst hk
      have fresh : (k', v) ∉ rest := fun hmem =>
        nodup.1 (List.mem_map_of_mem (f := Prod.fst) hmem)
      simp [find_cons, fresh, eq_comm]
    · simp [find_cons, hk, ih nodup.2, Ne.symm hk]

theorem get?_eq_some_iff (m : JsMap K V) (k : K) (v : V) :
    m.get? k = some v ↔ (k, v) ∈ m.entries :=
  find_eq_some_iff m.nodup k v

theorem has_iff (m : JsMap K V) (k : K) : m.has k = true ↔ ∃ v, m.get? k = some v := by
  simp [has, Option.isSome_iff_exists]

theorem mem_keys_iff (m : JsMap K V) (k : K) : k ∈ m.keys ↔ ∃ v, m.get? k = some v := by
  simp only [get?_eq_some_iff, keys, List.mem_map]
  constructor
  · rintro ⟨⟨j, v⟩, hmem, rfl⟩
    exact ⟨v, hmem⟩
  · rintro ⟨v, hmem⟩
    exact ⟨(k, v), hmem, rfl⟩

theorem has_eq_false_iff (m : JsMap K V) (k : K) : m.has k = false ↔ m.get? k = none := by
  simp [has]

@[simp] theorem get?_empty (k : K) : (empty : JsMap K V).get? k = none := rfl

@[simp] theorem has_empty (k : K) : (empty : JsMap K V).has k = false := rfl

theorem eq_empty {m : JsMap K V} (h : ∀ k, m.get? k = none) : m = empty := by
  obtain ⟨entries, nodup⟩ := m
  cases entries with
  | nil => rfl
  | cons e rest =>
    obtain ⟨k, v⟩ := e
    have hfirst : (⟨(k, v) :: rest, nodup⟩ : JsMap K V).get? k = some v := by
      simp [get?, find_cons]
    rw [h] at hfirst
    cases hfirst

/-! ## Updates -/

/-- Replace the value under `k` in place, or append it. -/
def insert (k : K) (v : V) : List (K × V) → List (K × V)
  | [] => [(k, v)]
  | (k', v') :: rest => if k' = k then (k, v) :: rest else (k', v') :: insert k v rest

theorem insert_nil (k : K) (v : V) : insert k v [] = [(k, v)] := rfl

theorem insert_cons (k k' : K) (v v' : V) (l : List (K × V)) :
    insert k v ((k', v') :: l) = if k' = k then (k, v) :: l else (k', v') :: insert k v l := rfl

theorem mem_keys_insert {k j : K} {v : V} {l : List (K × V)} :
    j ∈ (insert k v l).map Prod.fst → j = k ∨ j ∈ l.map Prod.fst := by
  induction l with
  | nil => simp [insert_nil]
  | cons e rest ih =>
    obtain ⟨k', v'⟩ := e
    rw [insert_cons]
    split
    · rename_i hk
      intro hmem
      simp only [List.map_cons, List.mem_cons] at hmem ⊢
      rcases hmem with h | h
      · exact Or.inl h
      · exact Or.inr (Or.inr h)
    · intro hmem
      simp only [List.map_cons, List.mem_cons] at hmem ⊢
      rcases hmem with h | h
      · exact Or.inr (Or.inl h)
      · exact (ih h).imp id Or.inr

theorem nodup_insert (k : K) (v : V) {l : List (K × V)}
    (nodup : (l.map Prod.fst).Nodup) : ((insert k v l).map Prod.fst).Nodup := by
  induction l with
  | nil => simp [insert_nil]
  | cons e rest ih =>
    obtain ⟨k', v'⟩ := e
    simp only [List.map_cons, List.nodup_cons] at nodup
    rw [insert_cons]
    split
    · rename_i hk
      subst hk
      simpa using nodup
    · rename_i hk
      simp only [List.map_cons, List.nodup_cons]
      refine ⟨fun hmem => ?_, ih nodup.2⟩
      exact (mem_keys_insert hmem).elim hk nodup.1

theorem find_insert (k : K) (v : V) (l : List (K × V)) (j : K) :
    find j (insert k v l) = if k = j then some v else find j l := by
  induction l with
  | nil => rfl
  | cons e rest ih =>
    obtain ⟨k', v'⟩ := e
    rw [insert_cons]
    split
    · rename_i hk
      subst hk
      simp only [find_cons]
      split <;> rfl
    · rename_i hk
      simp only [find_cons, ih]
      by_cases hkj : k = j
      · subst hkj
        simp [hk]
      · simp [hkj]

/-- `map.set(k, v)`. -/
def set (m : JsMap K V) (k : K) (v : V) : JsMap K V :=
  ⟨insert k v m.entries, nodup_insert k v m.nodup⟩

theorem insert_eq_self {k : K} {v : V} {l : List (K × V)} (h : find k l = some v) :
    insert k v l = l := by
  induction l with
  | nil => cases h
  | cons e rest ih =>
    obtain ⟨k', v'⟩ := e
    rw [insert_cons]
    rw [find_cons] at h
    split
    · rename_i hk
      rw [if_pos hk] at h
      cases h
      rw [hk]
    · rename_i hk
      rw [if_neg hk] at h
      rw [ih h]

theorem set_eq_self {m : JsMap K V} {k : K} {v : V} (h : m.get? k = some v) : m.set k v = m := by
  cases m
  simp only [set, mk.injEq]
  exact insert_eq_self h

theorem insert_of_fresh {k : K} {v : V} {l : List (K × V)} (h : find k l = none) :
    insert k v l = l ++ [(k, v)] := by
  induction l with
  | nil => rfl
  | cons e rest ih =>
    obtain ⟨k', v'⟩ := e
    rw [insert_cons]
    rw [find_cons] at h
    split
    · rename_i hk
      rw [if_pos hk] at h
      cases h
    · rename_i hk
      rw [if_neg hk] at h
      rw [ih h, List.cons_append]

theorem values_set_of_fresh {m : JsMap K V} {k : K} (h : m.get? k = none) (v : V) :
    (m.set k v).values = m.values ++ [v] := by
  simp [set, values, insert_of_fresh h]

/-- Setting a key that is there keeps the place of its value. -/
theorem map_values_set {W : Type} {f : V → W} {m : JsMap K V} {k : K} {v w : V}
    (h : m.get? k = some v) (hf : f w = f v) : (m.set k w).values.map f = m.values.map f := by
  have hinsert : ∀ l : List (K × V), find k l = some v →
      ((insert k w l).map Prod.snd).map f = (l.map Prod.snd).map f := by
    intro l
    induction l with
    | nil => exact fun hfind => by cases hfind
    | cons e rest ih =>
      obtain ⟨k', v'⟩ := e
      intro hfind
      rw [find_cons] at hfind
      rw [insert_cons]
      split
      · next hk =>
          rw [if_pos hk] at hfind
          rw [List.map_cons, List.map_cons, hf, ← Option.some.inj hfind]
          rfl
      · next hk =>
          rw [if_neg hk] at hfind
          rw [List.map_cons, List.map_cons, ih hfind]
          rfl
  exact hinsert m.entries h

theorem insert_insert (k : K) (v w : V) (l : List (K × V)) :
    insert k w (insert k v l) = insert k w l := by
  induction l with
  | nil => simp [insert_nil, insert_cons]
  | cons e rest ih =>
    obtain ⟨k', v'⟩ := e
    by_cases hk : k' = k
    · simp [insert_cons, hk]
    · simp [insert_cons, hk, ih]

theorem set_set (m : JsMap K V) (k : K) (v w : V) : (m.set k v).set k w = m.set k w := by
  simp only [set, mk.injEq]
  exact insert_insert k v w m.entries

/-- `map.delete(k)`. -/
def delete (m : JsMap K V) (k : K) : JsMap K V := m.filter fun k' _ => k' ≠ k

theorem get?_set (m : JsMap K V) (k : K) (v : V) (j : K) :
    (m.set k v).get? j = if k = j then some v else m.get? j :=
  find_insert k v m.entries j

@[simp] theorem get?_set_self (m : JsMap K V) (k : K) (v : V) :
    (m.set k v).get? k = some v := by simp [get?_set]

theorem get?_set_ne (m : JsMap K V) {k j : K} (v : V) (h : k ≠ j) :
    (m.set k v).get? j = m.get? j := by simp [get?_set, h]

theorem has_set (m : JsMap K V) (k : K) (v : V) (j : K) :
    (m.set k v).has j = (decide (k = j) || m.has j) := by
  unfold has
  rw [get?_set]
  by_cases h : k = j <;> simp [h]

theorem get?_filter (p : K → V → Bool) (m : JsMap K V) (j : K) :
    (m.filter p).get? j = (m.get? j).filter (p j) := by
  ext v
  rw [get?_eq_some_iff, Option.filter_eq_some_iff, get?_eq_some_iff]
  simp [filter]

theorem get?_delete (m : JsMap K V) (k j : K) :
    (m.delete k).get? j = if k = j then none else m.get? j := by
  rw [delete, get?_filter]
  by_cases h : k = j
  · subst h
    simp
  · cases hget : m.get? j <;> simp [h, Ne.symm h]

@[simp] theorem get?_delete_self (m : JsMap K V) (k : K) : (m.delete k).get? k = none := by
  simp [get?_delete]

theorem get?_of_get?_filter {p : K → V → Bool} {m : JsMap K V} {j : K} {v : V}
    (h : (m.filter p).get? j = some v) : m.get? j = some v ∧ p j v = true := by
  rw [get?_filter, Option.filter_eq_some_iff] at h
  exact h

theorem get?_of_get?_delete {m : JsMap K V} {k j : K} {v : V}
    (h : (m.delete k).get? j = some v) : k ≠ j ∧ m.get? j = some v := by
  rw [get?_delete] at h
  split at h
  · cases h
  · exact ⟨by assumption, h⟩

/-- Delete each key of a list in turn: the loop `for (const k of ks) map.delete(k)`. -/
def deleteAll (m : JsMap K V) (ks : List K) : JsMap K V := ks.foldl delete m

theorem get?_deleteAll (ks : List K) : ∀ (m : JsMap K V) (j : K),
    (deleteAll m ks).get? j = if j ∈ ks then none else m.get? j := by
  induction ks with
  | nil => intro m j; simp [deleteAll]
  | cons k rest ih =>
    intro m j
    have step : deleteAll m (k :: rest) = deleteAll (m.delete k) rest := rfl
    rw [step, ih, get?_delete]
    by_cases hk : k = j
    · simp [hk]
    · simp [hk, Ne.symm hk]

end JsMap

/-! ## Sets -/

/-- An insertion-ordered finite set. -/
abbrev JsSet (K : Type) := JsMap K Unit

namespace JsSet

variable {K : Type} [DecidableEq K]

/-- `set.add(k)`. -/
def add (m : JsSet K) (k : K) : JsSet K := JsMap.set m k ()

theorem has_add (m : JsSet K) (k j : K) :
    (add m k).has j = (decide (k = j) || m.has j) :=
  JsMap.has_set m k () j

@[simp] theorem has_add_self (m : JsSet K) (k : K) : (add m k).has k = true := by
  simp [has_add]

theorem has_add_of_has {m : JsSet K} {j : K} (k : K) (h : m.has j = true) :
    (add m k).has j = true := by simp [has_add, h]

/-- Add each key of a list in turn: the loop `for (const k of ks) set.add(k)`. -/
def addAll (m : JsSet K) (ks : List K) : JsSet K := ks.foldl add m

theorem has_addAll (ks : List K) : ∀ (m : JsSet K) (j : K),
    (addAll m ks).has j = true ↔ j ∈ ks ∨ m.has j = true := by
  induction ks with
  | nil => intro m j; simp [addAll]
  | cons k rest ih =>
    intro m j
    have step : addAll m (k :: rest) = addAll (add m k) rest := rfl
    rw [step, ih, has_add]
    simp only [Bool.or_eq_true, decide_eq_true_eq, List.mem_cons]
    tauto

theorem has_iff_mem_keys (m : JsSet K) (j : K) : m.has j = true ↔ j ∈ m.keys := by
  rw [JsMap.has_iff, JsMap.mem_keys_iff]

end JsSet

end NeuronWeb
