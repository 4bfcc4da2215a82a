/-
  Foundation/Text: reading back what was written into a text.

  Decimal numerals determine the number they write, and fields that a separator keeps
  apart can be read back as long as no field but the last contains it.
-/
import Mathlib.Algebra.BigOperators.Group.List.Basic
import Mathlib.Algebra.Ring.Nat

set_option autoImplicit false

namespace NeuronWeb.Text

/-- A field before a separator it does not contain is determined by the whole. -/
theorem field_inj {α : Type} {sep : α} {l l' r r' : List α} (hl : sep ∉ l) (hl' : sep ∉ l')
    (h : l ++ sep :: r = l' ++ sep :: r') : l = l' ∧ r = r' := by
  induction l generalizing l' with
  | nil =>
    cases l' with
    | nil => exact ⟨rfl, (List.cons.inj h).2⟩
    | cons c rest =>
      have hc : sep = c := (List.cons.inj h).1
      exact absurd (hc ▸ List.mem_cons_self) hl'
  | cons c rest ih =>
    cases l' with
    | nil =>
      have hc : c = sep := (List.cons.inj h).1
      exact absurd (hc ▸ List.mem_cons_self) hl
    | cons c' rest' =>
      obtain ⟨hc, hrest⟩ := List.cons.inj h
      obtain ⟨heq, hr⟩ := ih (fun hmem => hl (List.mem_cons_of_mem _ hmem))
        (fun hmem => hl' (List.mem_cons_of_mem _ hmem)) hrest
      exact ⟨by rw [hc, heq], hr⟩

/-- A field after the last separator is determined by the whole, and so is what precedes. -/
theorem last_field_inj {α : Type} {sep : α} {l l' r r' : List α} (hr : sep ∉ r) (hr' : sep ∉ r')
    (h : l ++ sep :: r = l' ++ sep :: r') : l = l' ∧ r = r' := by
  have hreverse : r.reverse ++ sep :: l.reverse = r'.reverse ++ sep :: l'.reverse := by
    simpa using congrArg List.reverse h
  obtain ⟨hright, hleft⟩ := field_inj (fun hmem => hr (List.mem_reverse.mp hmem))
    (fun hmem => hr' (List.mem_reverse.mp hmem)) hreverse
  exact ⟨List.reverse_inj.mp hleft, List.reverse_inj.mp hright⟩

section Join

variable {α : Type} [DecidableEq α] {sep : α}

/-- Joined fields have the separators between them and those inside them. -/
theorem count_intercalate (p : List α) : ∀ parts : List (List α),
    ([sep].intercalate (p :: parts)).count sep =
      parts.length + ((p :: parts).map (List.count sep)).sum
  | [] => by simp
  | q :: parts => by
    rw [List.intercalate_cons_cons, List.count_append, List.count_append,
      count_intercalate q parts, List.count_singleton_self, List.map_cons (l := q :: parts),
      List.sum_cons, List.length_cons]
    omega

/-- Joins that are equal have as many separators inside their fields. -/
theorem forall_not_mem_of_intercalate_eq {ps qs : List (List α)} (hlen : ps.length = qs.length)
    (hps : ∀ p ∈ ps, sep ∉ p) (h : [sep].intercalate ps = [sep].intercalate qs) :
    ∀ q ∈ qs, sep ∉ q := by
  intro r hr
  cases ps with
  | nil =>
    rw [List.length_eq_zero_iff.mp hlen.symm] at hr
    cases hr
  | cons p ps =>
    cases qs with
    | nil => cases hlen
    | cons q qs =>
      have hnone : ((p :: ps).map (List.count sep)).sum = 0 := by
        refine List.sum_eq_zero_iff_forall_eq_nat.mpr fun n hn => ?_
        obtain ⟨t, ht, rfl⟩ := List.mem_map.mp hn
        exact List.count_eq_zero.mpr (hps t ht)
      have hcount := congrArg (List.count sep) h
      rw [count_intercalate, count_intercalate, hnone] at hcount
      have hlen' : ps.length = qs.length := Nat.succ.inj hlen
      have hsum : ((q :: qs).map (List.count sep)).sum = 0 := by omega
      have hzero := List.sum_eq_zero_iff_forall_eq_nat.mp hsum _ (List.mem_map_of_mem hr)
      exact List.count_eq_zero.mp hzero

/-- As many fields without a separator as fields of any kind: both are determined by what they
join to. -/
theorem intercalate_inj : ∀ {ps qs : List (List α)}, ps.length = qs.length →
    (∀ p ∈ ps, sep ∉ p) → [sep].intercalate ps = [sep].intercalate qs → ps = qs
  | [], qs, hlen, _, _ => (List.length_eq_zero_iff.mp hlen.symm).symm
  | [p], qs, hlen, _, h => by
    obtain ⟨q, rfl⟩ := List.length_eq_one_iff.mp hlen.symm
    rw [List.intercalate_singleton, List.intercalate_singleton] at h
    rw [h]
  | p :: p' :: ps, qs, hlen, hps, h => by
    have hqs := forall_not_mem_of_intercalate_eq hlen hps h
    cases qs with
    | nil => cases hlen
    | cons q qs =>
      have hlen' : (p' :: ps).length = qs.length := Nat.succ.inj hlen
      cases qs with
      | nil => cases hlen'
      | cons q' qs =>
        rw [List.intercalate_cons_cons, List.intercalate_cons_cons, List.append_assoc,
          List.append_assoc, List.singleton_append, List.singleton_append] at h
        obtain ⟨hhead, htail⟩ := field_inj (hps p List.mem_cons_self)
          (hqs q List.mem_cons_self) h
        rw [hhead, intercalate_inj hlen'
          (fun r hr => hps r (List.mem_cons_of_mem _ hr)) htail]

end Join

theorem join_inj {sep : Char} {glue : String} (hglue : glue.toList = [sep]) {ps qs : List String}
    (hlen : ps.length = qs.length) (hps : ∀ p ∈ ps, sep ∉ p.toList)
    (h : glue.intercalate ps = glue.intercalate qs) : ps = qs := by
  have hchars := congrArg String.toList h
  rw [String.toList_intercalate, String.toList_intercalate, hglue] at hchars
  have hfree : ∀ p ∈ ps.map String.toList, sep ∉ p := by
    intro p hp
    obtain ⟨s, hs, rfl⟩ := List.mem_map.mp hp
    exact hps s hs
  have hlists := intercalate_inj (by simpa using hlen) hfree hchars
  exact List.map_injective_iff.mpr (fun _ _ => String.toList_injective) hlists

theorem not_mem_repr {c : Char} (hc : c.isDigit = false) (n : Nat) : c ∉ n.repr.toList := by
  intro hmem
  rw [Nat.toList_repr] at hmem
  have hdigit := Nat.isDigit_of_mem_toDigits (by decide) (by decide) hmem
  rw [hc] at hdigit
  cases hdigit

theorem repr_injective : Function.Injective Nat.repr := by
  intro n m h
  have hdigits : Nat.toDigits 10 n = Nat.toDigits 10 m := by
    rw [← Nat.toList_repr, h, Nat.toList_repr]
  rw [← Nat.ofDigitChars_ten_toDigits (n := n), hdigits, Nat.ofDigitChars_ten_toDigits]

theorem not_mem_toString_int {c : Char} (hc : c.isDigit = false) (hsign : c ≠ '-') (i : Int) :
    c ∉ (toString i).toList := by
  cases i with
  | ofNat n => exact not_mem_repr hc n
  | negSucc n =>
    intro hmem
    have hmem : c ∈ '-' :: (n + 1).repr.toList := by simpa [toString, Int.repr] using hmem
    rcases List.mem_cons.mp hmem with h | h
    · exact hsign h
    · exact not_mem_repr hc (n + 1) h

/-- The numeral of an integer determines it. -/
theorem toString_int_injective : Function.Injective (toString : Int → String) := by
  have hsign : ∀ n m : Nat, n.repr ≠ "-" ++ m.repr := by
    intro n m h
    have hmem : '-' ∈ n.repr.toList := by simp [h]
    exact not_mem_repr (by decide) n hmem
  intro i j h
  cases i with
  | ofNat n =>
    cases j with
    | ofNat m => exact congrArg Int.ofNat (repr_injective h)
    | negSucc m => exact absurd h (hsign n (m + 1))
  | negSucc n =>
    cases j with
    | ofNat m => exact absurd h.symm (hsign m (n + 1))
    | negSucc m =>
      have hdigits : (n + 1).repr = (m + 1).repr := by
        have hsigned : "-" ++ (n + 1).repr = "-" ++ (m + 1).repr := h
        have hchars := congrArg String.toList hsigned
        simp only [String.toList_append] at hchars
        exact String.toList_injective (List.append_cancel_left hchars)
      have heq := repr_injective hdigits
      rw [Nat.succ.inj heq]

end NeuronWeb.Text
