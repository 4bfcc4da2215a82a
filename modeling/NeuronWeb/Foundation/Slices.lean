import Mathlib.Algebra.GroupWithZero.Nat
import Mathlib.Data.List.Forall2

set_option autoImplicit false

/-!
# A list in slices, and ranges of it

`slices n l` cuts `l` into parts of `n` elements and a shorter last one.

A reader of the slices gets the range (`flatten_rangeParts_slices`). Parts that give every range
of one declared part, and the whole, are the slices (`eq_of_prefixes`).
-/

namespace NeuronWeb

variable {α : Type}

/-- The parts of `n` elements, the last one with what is left. -/
def slices (n : Nat) (l : List α) : List (List α) :=
  if l.isEmpty || n == 0 then [] else l.take n :: slices n (l.drop n)
  termination_by l.length
  decreasing_by
    rename_i hne
    simp only [Bool.or_eq_true, List.isEmpty_iff, beq_iff_eq, not_or] at hne
    have hlength := List.length_pos_of_ne_nil hne.1
    rw [List.length_drop]
    omega

@[simp] theorem slices_nil (n : Nat) : slices n ([] : List α) = [] := by
  rw [slices]
  rfl

theorem slices_of_ne_nil {n : Nat} (hn : 0 < n) {l : List α} (h : l ≠ []) :
    slices n l = l.take n :: slices n (l.drop n) := by
  rw [slices, if_neg]
  simp only [Bool.or_eq_true, List.isEmpty_iff, beq_iff_eq, not_or]
  exact ⟨h, Nat.ne_of_gt hn⟩

/-- What holds of the empty list, and of a list when it holds of the rest behind its first
part, holds of every list. -/
theorem slices_induction {n : Nat} (hn : 0 < n) {motive : List α → Prop} (nil : motive [])
    (step : ∀ l, l ≠ [] → motive (l.drop n) → motive l) (l : List α) : motive l := by
  induction hlength : l.length using Nat.strongRecOn generalizing l with
  | _ k ih =>
    by_cases h : l = []
    · exact h ▸ nil
    · refine step l h (ih _ ?_ (l.drop n) rfl)
      have hpos := List.length_pos_of_ne_nil h
      rw [List.length_drop]
      omega

theorem flatten_slices {n : Nat} (hn : 0 < n) (l : List α) : (slices n l).flatten = l := by
  induction l using slices_induction hn with
  | nil => simp
  | step l h ih => rw [slices_of_ne_nil hn h, List.flatten_cons, ih, List.take_append_drop]

theorem ne_nil_of_mem_slices {n : Nat} (hn : 0 < n) {l part : List α} (h : part ∈ slices n l) :
    part ≠ [] := by
  induction l using slices_induction hn with
  | nil => simp at h
  | step l hl ih =>
    rw [slices_of_ne_nil hn hl, List.mem_cons] at h
    rcases h with rfl | h
    · have hpos := List.length_pos_of_ne_nil hl
      refine List.ne_nil_of_length_pos ?_
      rw [List.length_take]
      omega
    · exact ih h

/-! ## Ranges -/

/-- The elements `start … stop`, as far as there are any. -/
def between (start stop : Nat) (l : List α) : List α := (l.take (stop + 1)).drop start

theorem between_min (start stop : Nat) (l : List α) :
    between start (min stop (l.length - 1)) l = between start stop l := by
  unfold between
  rcases Nat.lt_or_ge stop l.length with hstop | hstop
  · rw [Nat.min_eq_left (by omega)]
  · rw [Nat.min_eq_right (by omega), List.take_of_length_le (by omega),
      List.take_of_length_le (by omega)]

/-- The pieces that the parts from `offset` on give to the range.  Each part comes with the
length that it is declared to have. -/
def rangeParts (start stop : Nat) : Nat → List (Nat × List α) → List (List α)
  | _, [] => []
  | offset, (len, part) :: rest =>
    (if start < offset + len ∧ offset ≤ stop then [between (start - offset) (stop - offset) part]
      else []) ++
      if stop < offset + len then [] else rangeParts start stop (offset + len) rest

theorem rangeParts_cons (start stop offset len : Nat) (part : List α)
    (rest : List (Nat × List α)) :
    rangeParts start stop offset ((len, part) :: rest) =
      (if start < offset + len ∧ offset ≤ stop then
          [between (start - offset) (stop - offset) part]
        else []) ++
        if stop < offset + len then [] else rangeParts start stop (offset + len) rest :=
  rfl

/-- The slices give the range. -/
theorem flatten_rangeParts_slices {n : Nat} (hn : 0 < n) (start stop : Nat) (l : List α) :
    ∀ offset, offset ≤ stop →
      (rangeParts start stop offset
          (((slices n l).map List.length).zip (slices n l))).flatten =
        between (start - offset) (stop - offset) l := by
  induction l using slices_induction hn with
  | nil => intro offset _; simp [rangeParts, between]
  | step l h ih =>
    intro offset hoffset
    rw [slices_of_ne_nil hn h, List.map_cons, List.zip_cons_cons, rangeParts_cons,
      List.flatten_append]
    -- a part that does not overlap would give nothing either
    have hpart : (if start < offset + (l.take n).length ∧ offset ≤ stop then
        [between (start - offset) (stop - offset) (l.take n)] else []).flatten =
          between (start - offset) (stop - offset) (l.take n) := by
      split
      · simp
      · rename_i hout
        have hbehind : (l.take n).length ≤ start - offset := by omega
        simp only [List.flatten_nil, between]
        rw [List.drop_eq_nil_of_le]
        rw [List.length_take]
        omega
    rw [hpart]
    have hsplit : between (start - offset) (stop - offset) l =
        between (start - offset) (stop - offset) (l.take n) ++
          ((l.drop n).take (stop - offset + 1 - (l.take n).length)).drop
            (start - offset - (l.take n).length) := by
      unfold between
      conv_lhs => rw [← List.take_append_drop n l]
      rw [List.take_append, List.drop_append]
      congr 1
      rcases Nat.lt_or_ge (stop - offset + 1) (l.take n).length with hstop | hstop
      · rw [Nat.sub_eq_zero_of_le (Nat.le_of_lt hstop)]
        simp
      · rw [List.take_of_length_le hstop]
    rw [hsplit]
    congr 1
    split
    · rename_i hlast
      have hnone : stop - offset + 1 - (l.take n).length = 0 := by omega
      rw [hnone, List.take_zero, List.drop_nil, List.flatten_nil]
    · rename_i hmore
      rw [ih _ (by omega)]
      unfold between
      have hstart : start - (offset + (l.take n).length) =
          start - offset - (l.take n).length := by omega
      have hstop : stop - (offset + (l.take n).length) + 1 =
          stop - offset + 1 - (l.take n).length := by omega
      rw [hstart, hstop]

/-- The range of one declared part is read from this part alone. -/
theorem rangeParts_one (before after : List (Nat × List α)) {len : Nat} (hlen : 0 < len)
    (part : List α) : ∀ offset, (∀ e ∈ before, 0 < e.1) →
      rangeParts (offset + (before.map Prod.fst).sum)
        (offset + (before.map Prod.fst).sum + (len - 1)) offset (before ++ (len, part) :: after) =
          [part.take len] := by
  induction before with
  | nil =>
    intro offset _
    rw [List.nil_append, rangeParts_cons, if_pos, if_pos]
    · simp only [List.map_nil, List.sum_nil, Nat.add_zero, Nat.sub_self, List.append_nil, between,
        List.drop_zero]
      congr 2
      omega
    · simp only [List.map_nil, List.sum_nil]
      omega
    · simp only [List.map_nil, List.sum_nil]
      omega
  | cons e before ih =>
    intro offset hpos
    obtain ⟨len', part'⟩ := e
    have hrest := ih (offset + len') fun e he => hpos e (List.mem_cons_of_mem _ he)
    rw [List.cons_append, rangeParts_cons, if_neg, if_neg, List.nil_append]
    · rw [← hrest]
      simp only [List.map_cons, List.sum_cons, Nat.add_assoc]
    · simp only [List.map_cons, List.sum_cons]
      omega
    · simp only [List.map_cons, List.sum_cons]
      omega

/-- The range of the `i`-th declared part. -/
theorem rangeParts_nth {lens : List Nat} {parts : List (List α)} (hpos : ∀ len ∈ lens, 0 < len)
    (hcount : parts.length = lens.length) {i : Nat} (hi : i < lens.length)
    (hi' : i < parts.length) :
    rangeParts (lens.take i).sum ((lens.take i).sum + (lens[i] - 1)) 0 (lens.zip parts) =
      [parts[i].take lens[i]] := by
  have hzip : i < (lens.zip parts).length := by
    rw [List.length_zip]
    omega
  have hsplit : lens.zip parts = (lens.zip parts).take i ++
      (lens[i], parts[i]) :: (lens.zip parts).drop (i + 1) := by
    conv_lhs => rw [← List.take_append_drop i (lens.zip parts), List.drop_eq_getElem_cons hzip]
    rw [List.getElem_zip]
  have hbefore : ((lens.zip parts).take i).map Prod.fst = lens.take i := by
    rw [List.map_take, List.map_fst_zip (Nat.le_of_eq hcount.symm)]
  have hone := rangeParts_one ((lens.zip parts).take i) ((lens.zip parts).drop (i + 1))
    (hpos lens[i] (List.getElem_mem hi)) parts[i] 0 fun e he =>
      hpos e.1 (List.mem_of_mem_take (hbefore ▸ List.mem_map_of_mem he))
  rwa [← hsplit, hbefore, Nat.zero_add] at hone

/-! ## Parts that begin like others -/

theorem length_flatten_le {ls ls' : List (List α)}
    (h : List.Forall₂ (fun l l' => l <+: l') ls ls') :
    ls.flatten.length ≤ ls'.flatten.length := by
  induction h with
  | nil => exact Nat.le_refl _
  | cons hfront _ ih =>
    rw [List.flatten_cons, List.flatten_cons, List.length_append, List.length_append]
    exact Nat.add_le_add hfront.length_le ih

/-- Parts that begin like others, and are no longer altogether, are the others. -/
theorem eq_of_prefixes {ls ls' : List (List α)} (h : List.Forall₂ (fun l l' => l <+: l') ls ls')
    (hlength : ls'.flatten.length ≤ ls.flatten.length) : ls' = ls := by
  induction h with
  | nil => rfl
  | cons hfront hrest ih =>
    have hle := length_flatten_le hrest
    have hle' := hfront.length_le
    rw [List.flatten_cons, List.flatten_cons, List.length_append, List.length_append] at hlength
    rw [hfront.eq_of_length_le (by omega), ih (by omega)]

/-- Parts that are declared to be as long as the slices, give every range and are the list
altogether, are the slices. -/
theorem eq_slices_of_ranges {n : Nat} (hn : 0 < n) {l : List α} {parts : List (List α)}
    (hcount : parts.length = (slices n l).length) (hflatten : parts.flatten = l)
    (hranges : ∀ start stop, start ≤ stop →
      (rangeParts start stop 0 (((slices n l).map List.length).zip parts)).flatten =
        between start stop l) :
    parts = slices n l := by
  refine eq_of_prefixes (List.forall₂_iff_get.mpr ⟨hcount.symm, fun i hi hi' => ?_⟩)
    (Nat.le_of_eq (by rw [hflatten, flatten_slices hn]))
  let lens := (slices n l).map List.length
  have hlens : i < lens.length := by rwa [List.length_map]
  have hpos : ∀ len ∈ lens, 0 < len := by
    intro len hlen
    obtain ⟨part, hpart, rfl⟩ := List.mem_map.mp hlen
    exact List.length_pos_of_ne_nil (ne_nil_of_mem_slices hn hpart)
  -- the range of the `i`-th slice, read from the parts and from the slices
  have hparts := rangeParts_nth hpos (hcount.trans (List.length_map _).symm) hlens hi'
  have hslices := rangeParts_nth hpos (List.length_map _).symm hlens hi
  have hle : (lens.take i).sum ≤ (lens.take i).sum + (lens[i] - 1) := Nat.le_add_right _ _
  have hwhole := flatten_rangeParts_slices hn (lens.take i).sum
    ((lens.take i).sum + (lens[i] - 1)) l 0 (Nat.zero_le _)
  have hsame := hranges _ _ hle
  rw [hslices, Nat.sub_zero, Nat.sub_zero, ← hsame, hparts] at hwhole
  simp only [List.flatten_cons, List.flatten_nil, List.append_nil] at hwhole
  have hwidth : (slices n l)[i].length = lens[i] := (List.getElem_map List.length).symm
  rw [List.get_eq_getElem, List.get_eq_getElem]
  rw [← hwidth, List.take_length] at hwhole
  rw [hwhole]
  exact List.take_prefix _ _

end NeuronWeb
