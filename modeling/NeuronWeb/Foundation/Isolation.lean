import NeuronWeb.Foundation.JsMap
import NeuronWeb.Foundation.Run

set_option autoImplicit false

/-!
# Parts of a state that others leave alone

Several parties work on one state, and each of them sees a part of it. A party is isolated when
what it sees at the end of a run is what it would see if only the inputs that concern it had
come.

`alike_final_filter` reduces this to two statements about one input: on an input that concerns
the party, states that are alike to it lead to states that are, and any other input leads to a
state that is alike.
-/

namespace NeuronWeb

namespace JsMap

section Entries

variable {K V : Type}

theorem ext_entries {m m' : JsMap K V} (h : m.entries = m'.entries) : m = m' := by
  obtain ⟨entries, nodup⟩ := m
  obtain ⟨entries', nodup'⟩ := m'
  cases h
  rfl

/-- The entries under the keys of a part. -/
def restrict (p : K → Bool) (m : JsMap K V) : JsMap K V := m.filter fun k _ => p k

end Entries

variable {K V : Type} [DecidableEq K] {p : K → Bool} {m m' : JsMap K V}

theorem get?_restrict (k : K) : (m.restrict p).get? k = if p k then m.get? k else none := by
  rw [restrict, get?_filter]
  cases m.get? k with
  | none => simp
  | some v => cases p k <;> simp

/-- Values that are told apart by a mark are those of the part, when the mark says which keys
are in it. -/
theorem values_filter_eq {c : V → Bool} (h : ∀ k v, m.get? k = some v → c v = p k) :
    m.values.filter c = (m.restrict p).values := by
  have hentries : m.entries.filter (fun e => c e.2) = m.entries.filter fun e => p e.1 := by
    refine List.filter_congr fun e he => ?_
    exact h e.1 e.2 ((m.get?_eq_some_iff e.1 e.2).mpr he)
  rw [values, List.filter_map]
  exact congrArg (List.map Prod.snd) hentries

theorem get?_eq_of_restrict_eq (h : m.restrict p = m'.restrict p) {k : K} (hk : p k = true) :
    m.get? k = m'.get? k := by
  have hget := congrArg (fun r => r.get? k) h
  simpa [get?_restrict, hk] using hget

theorem filter_insert_of_mem {k : K} (hk : p k = true) (v : V) (l : List (K × V)) :
    (insert k v l).filter (fun e => p e.1) = insert k v (l.filter fun e => p e.1) := by
  induction l with
  | nil => simp [insert, hk]
  | cons e rest ih =>
    obtain ⟨k', v'⟩ := e
    by_cases hkk : k' = k
    · subst hkk
      simp [insert, hk]
    · cases hk' : p k' <;> simp [insert, hkk, hk', ih]

theorem filter_insert_of_not_mem {k : K} (hk : p k = false) (v : V) (l : List (K × V)) :
    (insert k v l).filter (fun e => p e.1) = l.filter fun e => p e.1 := by
  induction l with
  | nil => simp [insert, hk]
  | cons e rest ih =>
    obtain ⟨k', v'⟩ := e
    by_cases hkk : k' = k
    · subst hkk
      simp [insert, hk]
    · cases hk' : p k' <;> simp [insert, hkk, hk', ih]

theorem restrict_set_of_mem {k : K} (hk : p k = true) (v : V) :
    (m.set k v).restrict p = (m.restrict p).set k v :=
  ext_entries (filter_insert_of_mem hk v m.entries)

theorem restrict_set_of_not_mem {k : K} (hk : p k = false) (v : V) :
    (m.set k v).restrict p = m.restrict p :=
  ext_entries (filter_insert_of_not_mem hk v m.entries)

/-- What is set in both maps is set in both restrictions, wherever it lies. -/
theorem restrict_set_congr (h : m.restrict p = m'.restrict p) (k : K) (v : V) :
    (m.set k v).restrict p = (m'.set k v).restrict p := by
  cases hk : p k with
  | true => rw [restrict_set_of_mem hk, restrict_set_of_mem hk, h]
  | false => rw [restrict_set_of_not_mem hk, restrict_set_of_not_mem hk, h]

theorem restrict_delete (k : K) : (m.delete k).restrict p = (m.restrict p).delete k := by
  refine ext_entries ?_
  simp only [restrict, delete, filter, List.filter_filter]
  exact List.filter_congr fun e _ => Bool.and_comm _ _

theorem restrict_delete_of_not_mem {k : K} (hk : p k = false) :
    (m.delete k).restrict p = m.restrict p := by
  refine ext_entries ?_
  simp only [restrict, delete, filter, List.filter_filter]
  refine List.filter_congr fun e _ => ?_
  by_cases he : e.1 = k
  · simp [he, hk]
  · simp [he]

theorem restrict_delete_congr (h : m.restrict p = m'.restrict p) (k : K) :
    (m.delete k).restrict p = (m'.delete k).restrict p := by
  rw [restrict_delete, restrict_delete, h]

end JsMap

/-! ## Lists -/

section Lists

variable {α : Type} {p : α → Bool}

/-- The place that the place `i` of a list has among the members of a part. -/
def rank (p : α → Bool) (l : List α) (i : Nat) : Nat := ((l.take i).filter p).length

theorem rank_succ {l : List α} {i : Nat} {a : α} (h : l[i]? = some a) :
    rank p l (i + 1) = rank p l i + if p a then 1 else 0 := by
  unfold rank
  rw [List.take_add_one, h, List.filter_append, List.length_append]
  cases ha : p a <;> simp [ha]

theorem filter_set_of_mem {l : List α} {i : Nat} {a x : α} (h : l[i]? = some a) (ha : p a = true)
    (hx : p x = true) : (l.set i x).filter p = (l.filter p).set (rank p l i) x := by
  induction l generalizing i with
  | nil => cases h
  | cons b rest ih =>
    cases i with
    | zero =>
      cases h
      simp [rank, ha, hx]
    | succ i =>
      have hrest := ih (i := i) h
      cases hb : p b <;> simp_all [rank]

theorem filter_set_of_not_mem {l : List α} {i : Nat} {a x : α} (h : l[i]? = some a)
    (ha : p a = false) (hx : p x = false) : (l.set i x).filter p = l.filter p := by
  induction l generalizing i with
  | nil => cases h
  | cons b rest ih =>
    cases i with
    | zero =>
      cases h
      simp [ha, hx]
    | succ i =>
      have hrest := ih (i := i) h
      cases hb : p b <;> simp_all

end Lists

/-! ## Runs -/

namespace Run

variable {σ α : Type} {step : σ → α → σ} {R : σ → σ → Prop} {p : α → Bool} {I : σ → Prop}
  {C : α → Prop}

/-- A run ends alike when the inputs that do not concern the party are left out. -/
theorem alike_final_filter (hkeep : ∀ s a, I s → C a → I (step s a))
    (hmine : ∀ s t a, I s → I t → C a → p a = true → R s t → R (step s a) (step t a))
    (hother : ∀ s t a, I s → C a → p a = false → R s t → R (step s a) t)
    {s t : σ} (hs : I s) (ht : I t) (hR : R s t) {inputs : List α} (hC : ∀ a ∈ inputs, C a) :
    R (final step s inputs) (final step t (inputs.filter p)) := by
  induction inputs generalizing s t with
  | nil => exact hR
  | cons a rest ih =>
    have ha : C a := hC a List.mem_cons_self
    have hrest : ∀ b ∈ rest, C b := fun b hb => hC b (List.mem_cons_of_mem a hb)
    cases hp : p a with
    | true =>
      rw [List.filter_cons_of_pos hp]
      exact ih (hkeep s a hs ha) (hkeep t a ht ha) (hmine s t a hs ht ha hp hR) hrest
    | false =>
      rw [List.filter_cons_of_neg (by simp [hp])]
      exact ih (hkeep s a hs ha) ht (hother s t a hs ha hp hR) hrest

theorem alike_final (hE : Equivalence R) (hkeep : ∀ s a, I s → C a → I (step s a))
    (hmine : ∀ s t a, I s → I t → C a → p a = true → R s t → R (step s a) (step t a))
    (hother : ∀ s t a, I s → C a → p a = false → R s t → R (step s a) t)
    {s t : σ} (hs : I s) (ht : I t) (hR : R s t) {inputs inputs' : List α}
    (hC : ∀ a ∈ inputs, C a) (hC' : ∀ a ∈ inputs', C a)
    (hsame : inputs.filter p = inputs'.filter p) :
    R (final step s inputs) (final step t inputs') := by
  have hleft := alike_final_filter hkeep hmine hother hs ht hR hC
  have hright := alike_final_filter hkeep hmine hother ht ht (hE.refl t) hC'
  rw [← hsame] at hright
  exact hE.trans hleft (hE.symm hright)

end Run

end NeuronWeb
