import Mathlib.Data.List.Basic

set_option autoImplicit false

/-!
# Runs of a step function

A component of the source is a state and a set of public calls, so it is modelled
by a total function `step : State → Input → State`, and everything said about it
"over every sequence of calls" is said about a run of `step` along a list of
inputs.

Three quantifiers over a run are enough for the whole development:

* `Always Q`: the state holds `Q` at the start and after every call;
* `EveryStep R`: `R before input after` holds of every single call;
* `StepsMeet C`: every call meets a condition on its input and on the state it is
  made in (the special case of `EveryStep` that ignores the state after).

The induction over the run is done here once.  A client proves one statement about
one step.
-/

namespace NeuronWeb.Run

variable {σ α : Type}

/-- The state a run ends in. -/
def final (step : σ → α → σ) (s : σ) (inputs : List α) : σ := inputs.foldl step s

@[simp] theorem final_nil (step : σ → α → σ) (s : σ) : final step s [] = s := rfl

@[simp] theorem final_cons (step : σ → α → σ) (s : σ) (a : α) (rest : List α) :
    final step s (a :: rest) = final step (step s a) rest := rfl

theorem final_append (step : σ → α → σ) (s : σ) (inputs later : List α) :
    final step s (inputs ++ later) = final step (final step s inputs) later :=
  List.foldl_append

/-- Every call of the run, with the state before and after it, satisfies `R`. -/
def EveryStep (step : σ → α → σ) (R : σ → α → σ → Prop) : σ → List α → Prop
  | _, [] => True
  | s, a :: rest => R s a (step s a) ∧ EveryStep step R (step s a) rest

/-- Every call of the run meets a condition on the state it is made in. -/
def StepsMeet (step : σ → α → σ) (C : σ → α → Prop) : σ → List α → Prop :=
  EveryStep step fun s a _ => C s a

/-- Every state of the run, the first and the last included, satisfies `Q`. -/
def Always (step : σ → α → σ) (Q : σ → Prop) : σ → List α → Prop
  | s, [] => Q s
  | s, a :: rest => Q s ∧ Always step Q (step s a) rest

/-- The states a run can end in. -/
def Reachable (step : σ → α → σ) (init : σ) (s : σ) : Prop :=
  ∃ inputs, final step init inputs = s

/-! ## Deciding a run -/

instance decidableEveryStep (step : σ → α → σ) (R : σ → α → σ → Prop)
    [∀ s a s', Decidable (R s a s')] : ∀ s inputs, Decidable (EveryStep step R s inputs)
  | _, [] => inferInstanceAs (Decidable True)
  | s, a :: rest =>
    @instDecidableAnd _ _ _ (decidableEveryStep step R (step s a) rest)

instance decidableStepsMeet (step : σ → α → σ) (C : σ → α → Prop) [∀ s a, Decidable (C s a)]
    (s : σ) (inputs : List α) : Decidable (StepsMeet step C s inputs) :=
  decidableEveryStep step (fun s a _ => C s a) s inputs

/-! ## Rules -/

section Rules

variable {step : σ → α → σ} {C : σ → α → Prop} {I Q : σ → Prop}
  {R : σ → α → σ → Prop}

theorem EveryStep.and {R' : σ → α → σ → Prop} {s : σ} {inputs : List α}
    (h : EveryStep step R s inputs) (h' : EveryStep step R' s inputs) :
    EveryStep step (fun s a s' => R s a s' ∧ R' s a s') s inputs := by
  induction inputs generalizing s with
  | nil => trivial
  | cons a rest ih => exact ⟨⟨h.1, h'.1⟩, ih h.2 h'.2⟩

theorem Always.start {s : σ} {inputs : List α} (h : Always step Q s inputs) : Q s := by
  cases inputs with
  | nil => exact h
  | cons a rest => exact h.1

theorem stepsMeet_cons {s : σ} {a : α} {rest : List α} :
    StepsMeet step C s (a :: rest) ↔ C s a ∧ StepsMeet step C (step s a) rest :=
  Iff.rfl

variable {inputs : List α}

section

variable (hstep : ∀ s a, I s → C s a → I (step s a))
include hstep

/-- The invariant rule: an invariant that every admitted call preserves holds at
the end of every run of admitted calls. -/
theorem invariant_final {s : σ} (hI : I s) (hC : StepsMeet step C s inputs) :
    I (final step s inputs) := by
  induction inputs generalizing s with
  | nil => exact hI
  | cons a rest ih => exact ih (hstep s a hI hC.1) hC.2

/-- What an invariant says of one admitted call, it says of every call of a run of
admitted calls. -/
theorem everyStep_of_invariant (hR : ∀ s a, I s → C s a → R s a (step s a)) {s : σ}
    (hI : I s) (hC : StepsMeet step C s inputs) : EveryStep step R s inputs := by
  induction inputs generalizing s with
  | nil => trivial
  | cons a rest ih => exact ⟨hR s a hI hC.1, ih (hstep s a hI hC.1) hC.2⟩

/-- An invariant of admitted calls that implies `Q` makes `Q` hold throughout. -/
theorem always_of_invariant (hQ : ∀ s, I s → Q s) {s : σ} (hI : I s)
    (hC : StepsMeet step C s inputs) : Always step Q s inputs := by
  induction inputs generalizing s with
  | nil => exact hQ s hI
  | cons a rest ih => exact ⟨hQ s hI, ih (hstep s a hI hC.1) hC.2⟩

end

/-- When the call that meets `C` is exactly the call that keeps `Q`, a run keeps
`Q` throughout exactly when all of its calls meet `C`.  The calls are promised `N`. -/
theorem always_iff_stepsMeet_of_promised {N : σ → α → Prop}
    (hstep : ∀ s a, I s → N s a → I (step s a))
    (hiff : ∀ s a, I s → N s a → Q s → (Q (step s a) ↔ C s a)) {s : σ}
    (hI : I s) (hQ : Q s) (hN : StepsMeet step N s inputs) :
    Always step Q s inputs ↔ StepsMeet step C s inputs := by
  induction inputs generalizing s with
  | nil => simp [Always, StepsMeet, EveryStep, hQ]
  | cons a rest ih =>
    obtain ⟨ha, hlater⟩ := hN
    rw [stepsMeet_cons]
    constructor
    · rintro ⟨_, hrest⟩
      have hQ' : Q (step s a) := hrest.start
      exact ⟨(hiff s a hI ha hQ).mp hQ', (ih (hstep s a hI ha) hQ' hlater).mp hrest⟩
    · rintro ⟨hC, hrest⟩
      have hQ' : Q (step s a) := (hiff s a hI ha hQ).mpr hC
      exact ⟨hQ, (ih (hstep s a hI ha) hQ' hlater).mpr hrest⟩

theorem everyStep_iff_stepsMeet (hstep : ∀ s a, I s → I (step s a))
    (hiff : ∀ s a, I s → (R s a (step s a) ↔ C s a)) {s : σ}
    (hI : I s) : EveryStep step R s inputs ↔ StepsMeet step C s inputs := by
  induction inputs generalizing s with
  | nil => exact Iff.rfl
  | cons a rest ih => exact and_congr (hiff s a hI) (ih (hstep s a hI))

/-- When a call that has `R` leads to a state where `R` is decided again by `C`, a run
has `R` throughout exactly when all of its calls meet `C`.  The calls themselves are
promised `N`. -/
theorem everyStep_iff_stepsMeet_of_kept {N : σ → α → Prop}
    (hkeep : ∀ s a, Q s → N s a → R s a (step s a) → Q (step s a))
    (hiff : ∀ s a, Q s → N s a → (R s a (step s a) ↔ C s a)) {s : σ}
    (hQ : Q s) (hN : StepsMeet step N s inputs) :
    EveryStep step R s inputs ↔ StepsMeet step C s inputs := by
  induction inputs generalizing s with
  | nil => exact Iff.rfl
  | cons a rest ih =>
    obtain ⟨ha, hrest⟩ := hN
    rw [stepsMeet_cons]
    constructor
    · rintro ⟨hR, hlater⟩
      exact ⟨(hiff s a hQ ha).mp hR, (ih (hkeep s a hQ ha hR) hrest).mp hlater⟩
    · rintro ⟨hC, hlater⟩
      have hR : R s a (step s a) := (hiff s a hQ ha).mpr hC
      exact ⟨hR, (ih (hkeep s a hQ ha hR) hrest).mpr hlater⟩

theorem Always.at_final {s : σ} (h : Always step Q s inputs) : Q (final step s inputs) := by
  induction inputs generalizing s with
  | nil => exact h
  | cons a rest ih => exact ih h.2

theorem everyStep_append {s : σ} {inputs later : List α} :
    EveryStep step R s (inputs ++ later) ↔
      EveryStep step R s inputs ∧ EveryStep step R (final step s inputs) later := by
  induction inputs generalizing s with
  | nil => simp [EveryStep]
  | cons a rest ih => exact (and_congr_right fun _ => ih).trans and_assoc.symm

theorem EveryStep.last {s : σ} {inputs : List α} {a : α}
    (h : EveryStep step R s (inputs ++ [a])) :
    R (final step s inputs) a (step (final step s inputs) a) :=
  (everyStep_append.mp h).2.1

theorem stepsMeet_of_forall (hC : ∀ s a, C s a) (s : σ) (inputs : List α) :
    StepsMeet step C s inputs := by
  induction inputs generalizing s with
  | nil => trivial
  | cons a rest ih => exact ⟨hC s a, ih (step s a)⟩

theorem always_iff_stepsMeet (hstep : ∀ s a, I s → I (step s a))
    (hiff : ∀ s a, I s → Q s → (Q (step s a) ↔ C s a)) {s : σ} {inputs : List α}
    (hI : I s) (hQ : Q s) : Always step Q s inputs ↔ StepsMeet step C s inputs :=
  always_iff_stepsMeet_of_promised (N := fun _ _ => True) (fun s a h _ => hstep s a h)
    (fun s a h _ => hiff s a h) hI hQ (stepsMeet_of_forall (fun _ _ => trivial) s inputs)

/-- A condition that every call of a list meets in any state is met along the run. -/
theorem stepsMeet_of_mem {inputs : List α} (hC : ∀ a ∈ inputs, ∀ s, C s a) (s : σ) :
    StepsMeet step C s inputs := by
  induction inputs generalizing s with
  | nil => trivial
  | cons a rest ih =>
    exact ⟨hC a List.mem_cons_self s, ih (fun b hb => hC b (List.mem_cons_of_mem a hb)) _⟩

/-- An invariant that every call preserves holds of every reachable state. -/
theorem invariant_reachable {init : σ} (hinit : I init)
    (hstep : ∀ s a, I s → I (step s a)) {s : σ} (h : Reachable step init s) : I s := by
  obtain ⟨inputs, rfl⟩ := h
  exact invariant_final (C := fun _ _ => True) (fun s a hI _ => hstep s a hI) hinit
    (stepsMeet_of_forall (fun _ _ => trivial) init inputs)

theorem reachable_init (init : σ) : Reachable step init init := ⟨[], rfl⟩

theorem Reachable.final {init s : σ} (h : Reachable step init s) (later : List α) :
    Reachable step init (Run.final step s later) := by
  obtain ⟨inputs, rfl⟩ := h
  exact ⟨inputs ++ later, final_append step init inputs later⟩

end Rules

end NeuronWeb.Run
