/-
  Foundation/Generations: shares of successive splits, replaced one at a time.

  A secret is split so that any two shares of one split recover it, and shares of different
  splits do not combine. Each of a set of custodians holds at most one share, and all that
  matters about it is the generation, the split it is from.
-/
import Mathlib.Logic.Function.Basic

set_option autoImplicit false

namespace NeuronWeb.Generations

variable {R T : Type}

/-- Two custodians hold the generation `t`. -/
def Paired (held : R → Option T) (t : T) : Prop :=
  ∃ a b, a ≠ b ∧ held a = some t ∧ held b = some t

/-- Some generation has two custodians. -/
def Recoverable (held : R → Option T) : Prop := ∃ t, Paired held t

/-- Some generation has two custodians other than `w`. -/
def Spares (held : R → Option T) (w : R) : Prop :=
  ∃ t a b, a ≠ b ∧ a ≠ w ∧ b ≠ w ∧ held a = some t ∧ held b = some t

theorem Paired.spares {held : R → Option T} {t : T} {w : R} (h : Paired held t)
    (hw : held w ≠ some t) : Spares held w := by
  obtain ⟨a, b, hab, ha, hb⟩ := h
  have hne : ∀ c, held c = some t → c ≠ w := by
    rintro c hc rfl
    exact hw hc
  exact ⟨t, a, b, hab, hne a ha, hne b hb, ha, hb⟩

section Moves

variable [DecidableEq R]

/-- One custodian is asked to take a share of the generation `t`, and may refuse. -/
def move (accepts : R → Bool) (t : T) (held : R → Option T) (w : R) : R → Option T :=
  if accepts w then Function.update held w (some t) else held

/-- The assignments passed through while the custodians `ws` are asked in turn. -/
def passes (accepts : R → Bool) (t : T) : (R → Option T) → List R → List (R → Option T)
  | _, [] => []
  | held, w :: ws => move accepts t held w :: passes accepts t (move accepts t held w) ws

variable {accepts : R → Bool} {t : T} {held : R → Option T}

@[simp] theorem move_refused {w : R} (h : accepts w = false) :
    move accepts t held w = held := by
  simp [move, h]

@[simp] theorem move_accepted {w : R} (h : accepts w = true) :
    move accepts t held w = Function.update held w (some t) := by
  simp [move, h]

theorem move_keeps {w c : R} (h : held c = some t) : move accepts t held w c = some t := by
  by_cases haccepts : accepts w = true
  · rw [move_accepted haccepts]
    by_cases hcw : c = w
    · rw [hcw, Function.update_self]
    · rw [Function.update_of_ne hcw, h]
  · rw [move_refused (Bool.eq_false_iff.mpr haccepts), h]

theorem passes_paired (h : Paired held t) (ws : List R) :
    ∀ m ∈ passes accepts t held ws, Paired m t := by
  induction ws generalizing held with
  | nil => intro m hm; cases hm
  | cons w ws ih =>
    have hnext : Paired (move accepts t held w) t := by
      obtain ⟨a, b, hab, ha, hb⟩ := h
      exact ⟨a, b, hab, move_keeps ha, move_keeps hb⟩
    intro m hm
    rcases List.mem_cons.mp hm with rfl | hm
    · exact hnext
    · exact ih hnext m hm

/-- Once the first custodian has been moved safely, the others can follow: the next one
moved makes two. -/
theorem passes_recoverable_of_started {w : R} (hw : held w = some t) (h : Recoverable held)
    {ws : List R} (hws : w ∉ ws) : ∀ m ∈ passes accepts t held ws, Recoverable m := by
  induction ws with
  | nil => intro m hm; cases hm
  | cons v ws ih =>
    have hvw : w ≠ v := fun heq => hws (heq ▸ List.mem_cons_self)
    intro m hm
    cases haccepts : accepts v with
    | false =>
      rw [passes, move_refused haccepts] at hm
      rcases List.mem_cons.mp hm with rfl | hm
      · exact h
      · exact ih (fun hmem => hws (List.mem_cons_of_mem v hmem)) m hm
    | true =>
      have hpair : Paired (move accepts t held v) t :=
        ⟨w, v, hvw, move_keeps hw, by rw [move_accepted haccepts, Function.update_self]⟩
      rcases List.mem_cons.mp hm with rfl | hm
      · exact ⟨t, hpair⟩
      · exact ⟨t, passes_paired hpair ws m hm⟩

/-- Moving one custodian to a generation nobody holds yet is safe exactly when it can be
spared. -/
theorem recoverable_update_iff {w : R} (hfresh : ∀ c, held c ≠ some t) :
    Recoverable (Function.update held w (some t)) ↔ Spares held w := by
  constructor
  · rintro ⟨u, a, b, hab, ha, hb⟩
    have hne : ∀ c d, c ≠ d → Function.update held w (some t) c = some u →
        Function.update held w (some t) d = some u → c ≠ w := by
      rintro c d hcd hc hd rfl
      rw [Function.update_self] at hc
      rw [Function.update_of_ne (Ne.symm hcd), ← hc] at hd
      exact hfresh d hd
    have haw : a ≠ w := hne a b hab ha hb
    have hbw : b ≠ w := hne b a (Ne.symm hab) hb ha
    rw [Function.update_of_ne haw] at ha
    rw [Function.update_of_ne hbw] at hb
    exact ⟨u, a, b, hab, haw, hbw, ha, hb⟩
  · rintro ⟨u, a, b, hab, haw, hbw, ha, hb⟩
    exact ⟨u, a, b, hab, by rw [Function.update_of_ne haw, ha],
      by rw [Function.update_of_ne hbw, hb]⟩

/-- Asking custodians in turn keeps the secret recoverable throughout exactly when the
first that accepts can be spared. -/
theorem passes_recoverable_iff (h : Recoverable held) (hfresh : ∀ c, held c ≠ some t)
    {ws : List R} (hnodup : ws.Nodup) :
    (∀ m ∈ passes accepts t held ws, Recoverable m) ↔
      ∀ w, ws.find? accepts = some w → Spares held w := by
  induction ws with
  | nil => simp [passes]
  | cons v ws ih =>
    obtain ⟨hv, hnodup⟩ := List.nodup_cons.mp hnodup
    cases haccepts : accepts v with
    | false =>
      rw [List.find?_cons_of_neg (by simp [haccepts]), ← ih hnodup, passes,
        move_refused haccepts, List.forall_mem_cons]
      exact and_iff_right h
    | true =>
      have hfind : (v :: ws).find? accepts = some v := List.find?_cons_of_pos haccepts
      rw [hfind, passes, move_accepted haccepts, List.forall_mem_cons,
        recoverable_update_iff hfresh]
      constructor
      · rintro ⟨hspares, _⟩ w hw
        rw [← Option.some.inj hw]
        exact hspares
      · intro hspares
        have hfirst : Spares held v := hspares v rfl
        have hheld : Function.update held v (some t) v = some t :=
          Function.update_self v (some t) held
        exact ⟨hfirst, passes_recoverable_of_started hheld
          ((recoverable_update_iff hfresh).mpr hfirst) hv⟩

end Moves

end NeuronWeb.Generations
