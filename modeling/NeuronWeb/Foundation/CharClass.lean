import Mathlib.Computability.RegularExpressions
import Mathlib.Data.UInt

set_option autoImplicit false

/-!
# Character classes of regular expressions

The source checks names with anchored patterns made of character classes, groups that may be
missing, and repetition.  Mathlib has the regular expressions and decides their languages; this
module adds the two forms that a pattern is written with, and says what they match.
-/

namespace NeuronWeb.CharClass

open RegularExpression

variable {α : Type} [DecidableEq α]

/-- `[…]`: one character of a class. -/
def oneOf (chars : List α) : RegularExpression α :=
  chars.foldr (fun c rest => char c + rest) 0

/-- `(…)?`: a group that may be missing. -/
def optional (P : RegularExpression α) : RegularExpression α := 1 + P

theorem oneOf_rmatch_iff (chars x : List α) :
    (oneOf chars).rmatch x = true ↔ ∃ c ∈ chars, x = [c] := by
  induction chars with
  | nil => simp [oneOf, zero_rmatch]
  | cons c rest ih =>
    have hcons : oneOf (c :: rest) = char c + oneOf rest := rfl
    rw [hcons, add_rmatch_iff, char_rmatch_iff, ih, List.exists_mem_cons_iff]

theorem optional_rmatch_iff (P : RegularExpression α) (x : List α) :
    (optional P).rmatch x = true ↔ x = [] ∨ P.rmatch x = true := by
  rw [optional, add_rmatch_iff, one_rmatch_iff]

/-- `[…]*`: any number of characters of a class. -/
theorem star_oneOf_rmatch_iff (chars x : List α) :
    (star (oneOf chars)).rmatch x = true ↔ ∀ c ∈ x, c ∈ chars := by
  rw [star_rmatch_iff]
  constructor
  · rintro ⟨parts, rfl, hparts⟩ c hc
    obtain ⟨part, hpart, hmem⟩ := List.mem_flatten.mp hc
    obtain ⟨d, hd, rfl⟩ := (oneOf_rmatch_iff chars part).mp (hparts part hpart).2
    rw [List.mem_singleton.mp hmem]
    exact hd
  · intro hall
    refine ⟨x.map fun c => [c], ?_, ?_⟩
    · rw [← List.flatMap_def, List.flatMap_singleton']
    · intro part hpart
      obtain ⟨c, hc, rfl⟩ := List.mem_map.mp hpart
      exact ⟨List.cons_ne_nil c [], (oneOf_rmatch_iff chars [c]).mpr ⟨c, hall c hc, rfl⟩⟩

/-- A character, and then any characters that end in one of the first kind, if any. -/
theorem framed_rmatch_iff (edge inner x : List α) (hsub : ∀ c ∈ edge, c ∈ inner) :
    (oneOf edge * optional (star (oneOf inner) * oneOf edge)).rmatch x = true ↔
      (∃ c ∈ edge, x.head? = some c) ∧ (∃ c ∈ edge, x.getLast? = some c) ∧
        ∀ c ∈ x, c ∈ inner := by
  rw [mul_rmatch_iff]
  constructor
  · rintro ⟨first, rest, rfl, hfirst, hrest⟩
    obtain ⟨c, hc, rfl⟩ := (oneOf_rmatch_iff edge first).mp hfirst
    rcases (optional_rmatch_iff _ rest).mp hrest with rfl | hgroup
    · refine ⟨⟨c, hc, rfl⟩, ⟨c, hc, rfl⟩, fun d hd => ?_⟩
      rw [List.append_nil, List.mem_singleton] at hd
      rw [hd]
      exact hsub c hc
    · obtain ⟨middle, last, rfl, hmiddle, hlast⟩ := (mul_rmatch_iff _ _ rest).mp hgroup
      obtain ⟨d, hd, rfl⟩ := (oneOf_rmatch_iff edge last).mp hlast
      have hinner := (star_oneOf_rmatch_iff inner middle).mp hmiddle
      refine ⟨⟨c, hc, rfl⟩, ⟨d, hd, ?_⟩, fun e he => ?_⟩
      · rw [← List.append_assoc, List.getLast?_concat]
      · rw [List.singleton_append, List.mem_cons, List.mem_append, List.mem_singleton] at he
        rcases he with rfl | he | rfl
        · exact hsub e hc
        · exact hinner e he
        · exact hsub e hd
  · rintro ⟨⟨c, hc, hhead⟩, ⟨d, hd, hlast⟩, hinner⟩
    cases x with
    | nil => cases hhead
    | cons first rest =>
      cases hhead
      refine ⟨[c], rest, rfl, (oneOf_rmatch_iff edge _).mpr ⟨c, hc, rfl⟩, ?_⟩
      rw [optional_rmatch_iff, mul_rmatch_iff]
      -- one character is the frame's both ends
      rcases List.eq_nil_or_concat' rest with rfl | ⟨middle, last, rfl⟩
      · exact .inl rfl
      · rw [← List.cons_append, List.getLast?_concat] at hlast
        cases hlast
        refine .inr ⟨middle, [d], rfl, ?_, (oneOf_rmatch_iff edge _).mpr ⟨d, hd, rfl⟩⟩
        refine (star_oneOf_rmatch_iff inner middle).mpr fun e he => hinner e ?_
        exact List.mem_cons_of_mem _ (List.mem_append_left _ he)

/-! ## Letters -/

/-- The characters an expression is written with. -/
def letters : RegularExpression α → List α
  | zero => []
  | epsilon => []
  | .char a => [a]
  | plus P Q => letters P ++ letters Q
  | comp P Q => letters P ++ letters Q
  | .star P => letters P

/-- What an expression matches is made of its letters. -/
theorem mem_letters_of_rmatch {P : RegularExpression α} {x : List α} (h : P.rmatch x = true) :
    ∀ c ∈ x, c ∈ letters P := by
  induction P generalizing x with
  | zero =>
    rw [zero_def, zero_rmatch] at h
    cases h
  | epsilon =>
    rw [one_def, one_rmatch_iff] at h
    subst h
    intro c hc
    cases hc
  | char a =>
    rw [char_rmatch_iff] at h
    subst h
    exact fun c hc => hc
  | plus P Q ihP ihQ =>
    rw [plus_def, add_rmatch_iff] at h
    intro c hc
    rcases h with h | h
    · exact List.mem_append_left _ (ihP h c hc)
    · exact List.mem_append_right _ (ihQ h c hc)
  | comp P Q ihP ihQ =>
    rw [comp_def, mul_rmatch_iff] at h
    obtain ⟨l, r, rfl, hl, hr⟩ := h
    intro c hc
    rcases List.mem_append.mp hc with hc | hc
    · exact List.mem_append_left _ (ihP hl c hc)
    · exact List.mem_append_right _ (ihQ hr c hc)
  | star P ih =>
    obtain ⟨parts, rfl, hparts⟩ := (star_rmatch_iff P x).mp h
    intro c hc
    obtain ⟨part, hpart, hmem⟩ := List.mem_flatten.mp hc
    exact ih (hparts part hpart).2 c hmem

/-! ## Ranges of code units -/

/-- `a-z`: the code units between two others. -/
def range (lo hi : UInt16) : List UInt16 :=
  (List.range (hi.toNat - lo.toNat + 1)).map fun i => lo + UInt16.ofNat i

theorem mem_range {lo hi u : UInt16} (hle : lo ≤ hi) : u ∈ range lo hi ↔ lo ≤ u ∧ u ≤ hi := by
  rw [range, List.mem_map]
  constructor
  · rintro ⟨i, hi', rfl⟩
    rw [List.mem_range] at hi'
    rw [UInt16.le_iff_toNat_le] at hle
    have hbound := hi.toNat_lt
    constructor
    · rw [UInt16.le_iff_toNat_le, UInt16.toNat_add, UInt16.toNat_ofNat']
      omega
    · rw [UInt16.le_iff_toNat_le, UInt16.toNat_add, UInt16.toNat_ofNat']
      omega
  · rintro ⟨hlo, hhi⟩
    refine ⟨u.toNat - lo.toNat, ?_, ?_⟩
    · rw [UInt16.le_iff_toNat_le] at hlo hhi
      rw [List.mem_range]
      omega
    · rw [UInt16.le_iff_toNat_le] at hlo
      have hbound := u.toNat_lt
      apply UInt16.toNat_inj.mp
      rw [UInt16.toNat_add, UInt16.toNat_ofNat']
      omega

end NeuronWeb.CharClass
