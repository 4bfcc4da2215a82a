import Mathlib.Data.List.Basic

set_option autoImplicit false

/-!
# Contests that are decided one pair at a time

Entrants come forward in some order and each brings a value or nothing.

`wins_iff_secure` says when a kind of value, `own`, stands at the end of every contest in which
one of its `strong` entrants takes part, whoever else does and in whatever order.
-/

namespace NeuronWeb.Contest

variable {ι α : Type}

/-- A value comes forward. -/
def challenge (beats : α → α → Option Bool) (best : Option α) : Option α → Option (Option α)
  | none => some best
  | some x =>
    match best with
    | none => some (some x)
    | some held => (beats x held).map fun newer => some (if newer then x else held)

/-- The value that stands after all entrants; `none` when a pair could not be compared. -/
def contest (beats : α → α → Option Bool) (val : ι → Option α) (best : Option α)
    (entrants : List ι) : Option (Option α) :=
  entrants.foldlM (fun best i => challenge beats best (val i)) best

section Rules

variable {beats : α → α → Option Bool} {val : ι → Option α}

@[simp] theorem contest_nil (best : Option α) : contest beats val best [] = some best := rfl

theorem contest_cons (best : Option α) (i : ι) (rest : List ι) :
    contest beats val best (i :: rest) =
      (challenge beats best (val i)).bind fun best => contest beats val best rest := rfl

theorem challenge_first {x : α} : challenge beats none (some x) = some (some x) := rfl

theorem challenge_held {x held : α} {newer : Bool} (h : beats x held = some newer) :
    challenge beats (some held) (some x) = some (some (if newer then x else held)) := by
  unfold challenge
  dsimp only
  rw [h]
  rfl

/-- Entrants that bring nothing make no difference. -/
theorem contest_filter {c : ι → Bool} {entrants : List ι} {best : Option α}
    (h : ∀ i ∈ entrants, c i = false → val i = none) :
    contest beats val best entrants = contest beats val best (entrants.filter c) := by
  induction entrants generalizing best with
  | nil => rfl
  | cons i rest ih =>
    have hrest : ∀ j ∈ rest, c j = false → val j = none := fun j hj =>
      h j (List.mem_cons_of_mem i hj)
    cases hc : c i with
    | true =>
      rw [List.filter_cons_of_pos hc, contest_cons, contest_cons]
      exact congrArg _ (funext fun best => ih hrest)
    | false =>
      have hnone : challenge beats best (val i) = some best := by
        rw [h i List.mem_cons_self hc]
        rfl
      rw [List.filter_cons_of_neg (by simp [hc]), contest_cons, hnone]
      exact ih hrest

end Rules

/-- Whoever takes part and in whatever order, a value of the kind stands at the end when a
strong entrant takes part. -/
def Wins (beats : α → α → Option Bool) (val : ι → Option α) (enters strong : ι → Prop)
    (own : α → Prop) : Prop :=
  ∀ entrants : List ι, entrants.Nodup → (∀ i ∈ entrants, enters i) →
    (∃ r ∈ entrants, strong r) →
    ∃ x, contest beats val none entrants = some (some x) ∧ own x

/-- What makes the kind win: its strong entrants bring values of it, all pairs compare, a
strong value wins against every rival, and against every value of the kind that some rival
wins against. -/
structure Secure (beats : α → α → Option Bool) (val : ι → Option α) (enters strong : ι → Prop)
    (own : α → Prop) : Prop where
  brings : ∀ r, strong r → ∃ x, val r = some x ∧ own x
  comparable : ∀ r i j x y, strong r → enters i → enters j → i ≠ j → val i = some x →
    val j = some y → (beats y x).isSome = true
  prevails : ∀ r b x y, strong r → enters b → val r = some x → val b = some y → ¬ own y →
    beats x y = some true
  shields : ∀ r i b x z y, strong r → enters i → enters b → val r = some x → val i = some z →
    own z → val b = some y → ¬ own y → beats y z = some true → beats x z = some true

/-- How values compare: no two win against each other, and within the kind winning is
transitive. -/
structure Orderly (beats : α → α → Option Bool) (own : α → Prop) : Prop where
  asymm : ∀ x y, beats x y = some true → beats y x ≠ some true
  trans : ∀ x y z, own x → own y → own z → beats y x = some true → beats z y = some true →
    beats z x = some true

section Winning

variable {beats : α → α → Option Bool} {val : ι → Option α} {enters strong : ι → Prop}
  {own : α → Prop}

/-- A value of the kind that no rival wins against, and that a strong one does not either. -/
def Safe (beats : α → α → Option Bool) (val : ι → Option α) (enters strong : ι → Prop)
    (own : α → Prop) (z : α) : Prop :=
  own z ∧ (∀ b y, enters b → val b = some y → ¬ own y → beats y z ≠ some true) ∧
    ∃ r x, strong r ∧ val r = some x ∧ beats x z ≠ some true

section

variable (h : Secure beats val enters strong own)
include h

theorem Secure.safe_of_strong
    (hB : Orderly beats own) {r : ι} {x : α} (hr : strong r) (hx : val r = some x) :
    Safe beats val enters strong own x := by
  obtain ⟨x', hx', hown⟩ := h.brings r hr
  rw [hx, Option.some.injEq] at hx'
  subst hx'
  exact ⟨hown, fun b y hb hy hrival => hB.asymm x y (h.prevails r b x y hr hb hx hy hrival),
    r, x, hr, hx, fun hself => hB.asymm x x hself hself⟩

theorem Secure.safe_of_stands {r i : ι} {x z : α}
    (hr : strong r) (hx : val r = some x) (hi : enters i) (hz : val i = some z) (hown : own z)
    (hstands : beats x z ≠ some true) : Safe beats val enters strong own z :=
  ⟨hown, fun b y hb hy hrival hbeats =>
    hstands (h.shields r i b x z y hr hi hb hx hz hown hy hrival hbeats), r, x, hr, hx, hstands⟩

/-- What is known of the best value once some entrants have come: one of them brought it, and
it is safe when a strong one was among them. -/
structure Standing (beats : α → α → Option Bool) (val : ι → Option α) (enters strong : ι → Prop)
    (own : α → Prop) (past : List ι) (best : Option α) : Prop where
  brought : ∀ z, best = some z → ∃ i ∈ past, enters i ∧ val i = some z
  safe : (∃ r ∈ past, strong r) → ∃ z, best = some z ∧ Safe beats val enters strong own z

theorem Standing.next (hB : Orderly beats own) {r₀ : ι} (hr₀ : strong r₀) {past : List ι}
    {best : Option α} (hs : Standing beats val enters strong own past best) {i : ι}
    (hi : enters i) (hnew : i ∉ past) :
    ∃ best', challenge beats best (val i) = some best' ∧
      Standing beats val enters strong own (past ++ [i]) best' := by
  cases hval : val i with
  | none =>
    refine ⟨best, rfl, fun z hz => ?_, fun hpast => ?_⟩
    · obtain ⟨j, hj, hbrought⟩ := hs.brought z hz
      exact ⟨j, List.mem_append_left _ hj, hbrought⟩
    · obtain ⟨r, hr, hrs⟩ := hpast
      rcases List.mem_append.mp hr with hr | hr
      · exact hs.safe ⟨r, hr, hrs⟩
      · -- a strong entrant brings a value
        rw [List.mem_singleton.mp hr] at hrs
        obtain ⟨x, hx, -⟩ := h.brings i hrs
        rw [hval] at hx
        cases hx
  | some x =>
    have hbroughtX : ∃ j ∈ past ++ [i], enters j ∧ val j = some x :=
      ⟨i, List.mem_append_right _ (List.mem_singleton_self i), hi, hval⟩
    cases hbest : best with
    | none =>
      refine ⟨some x, challenge_first, fun z hz => ?_, fun hpast => ⟨x, rfl, ?_⟩⟩
      · rw [← Option.some.inj hz]
        exact hbroughtX
      · obtain ⟨r, hr, hrs⟩ := hpast
        rcases List.mem_append.mp hr with hr | hr
        · obtain ⟨z, hz, -⟩ := hs.safe ⟨r, hr, hrs⟩
          rw [hbest] at hz
          cases hz
        · rw [List.mem_singleton.mp hr] at hrs
          exact h.safe_of_strong hB hrs hval
    | some held =>
      obtain ⟨j, hj, henters, hheld⟩ := hs.brought held hbest
      have hji : j ≠ i := fun heq => hnew (heq ▸ hj)
      obtain ⟨newer, hnewer⟩ := Option.isSome_iff_exists.mp
        (h.comparable r₀ j i held x hr₀ henters hi hji hheld hval)
      refine ⟨some (if newer then x else held), challenge_held hnewer, fun z hz => ?_,
        fun hpast => ⟨_, rfl, ?_⟩⟩
      · rw [← Option.some.inj hz]
        cases newer with
        | true => exact hbroughtX
        | false => exact ⟨j, List.mem_append_left _ hj, henters, hheld⟩
      · by_cases hbefore : ∃ r ∈ past, strong r
        · -- what was safe stays, or gives way to a value that is safe for the same reason
          obtain ⟨z, hz, hsafe⟩ := hs.safe hbefore
          rw [hbest, Option.some.injEq] at hz
          subst hz
          cases newer with
          | false => exact hsafe
          | true =>
            obtain ⟨hown, hrivals, r, y, hr, hy, hstands⟩ := hsafe
            have hownX : own x := by
              by_contra hrival
              exact hrivals i x hi hval hrival hnewer
            obtain ⟨y', hy', hownY⟩ := h.brings r hr
            rw [hy, Option.some.injEq] at hy'
            subst hy'
            exact h.safe_of_stands hr hy hi hval hownX fun hbeats =>
              hstands (hB.trans held x y hown hownX hownY hnewer hbeats)
        · -- the strong entrant is the one that has just come
          obtain ⟨r, hr, hrs⟩ := hpast
          have hri : r = i := by
            rcases List.mem_append.mp hr with hr | hr
            · exact absurd ⟨r, hr, hrs⟩ hbefore
            · exact List.mem_singleton.mp hr
          subst hri
          cases newer with
          | true => exact h.safe_of_strong hB hrs hval
          | false =>
            have hstands : beats x held ≠ some true := by
              rw [hnewer]
              exact fun heq => Bool.false_ne_true (Option.some.inj heq)
            by_cases hown : own held
            · exact h.safe_of_stands hrs hval henters hheld hown hstands
            · exact absurd (h.prevails r j x held hrs henters hval hheld hown) hstands

theorem contest_of_standing (hB : Orderly beats own) {r₀ : ι} (hr₀ : strong r₀) :
    ∀ (entrants past : List ι) (best : Option α),
      Standing beats val enters strong own past best → (∀ i ∈ entrants, enters i) →
      (past ++ entrants).Nodup → ∃ best', contest beats val best entrants = some best' ∧
        Standing beats val enters strong own (past ++ entrants) best' := by
  intro entrants
  induction entrants with
  | nil =>
    intro past best hs _ _
    rw [List.append_nil]
    exact ⟨best, rfl, hs⟩
  | cons i rest ih =>
    intro past best hs henters hnodup
    rw [List.append_cons] at hnodup
    have hnew : i ∉ past := by
      have hfirst := (List.nodup_append.mp hnodup).1
      rw [List.nodup_append] at hfirst
      exact fun hmem => hfirst.2.2 i hmem i (List.mem_singleton_self i) rfl
    obtain ⟨best', hbest', hs'⟩ :=
      hs.next h hB hr₀ (henters i List.mem_cons_self) hnew
    rw [contest_cons, hbest', List.append_cons]
    exact ih (past ++ [i]) best' hs' (fun j hj => henters j (List.mem_cons_of_mem i hj)) hnodup

theorem Secure.wins (hB : Orderly beats own) : Wins beats val enters strong own := by
  intro entrants hnodup henters hin
  have hstart : Standing beats val enters strong own [] none := by
    constructor
    · intro z hz
      cases hz
    · rintro ⟨r, hr, -⟩
      cases hr
  obtain ⟨r₀, hmem, hr₀⟩ := hin
  obtain ⟨best, hcontest, hs⟩ :=
    contest_of_standing h hB hr₀ entrants [] none hstart henters hnodup
  obtain ⟨z, hz, hsafe⟩ := hs.safe ⟨r₀, hmem, hr₀⟩
  exact ⟨z, by rw [hcontest, hz], hsafe.1⟩

end

/-! ## A value that tops the others -/

/-- Every other value that plays loses to `top`, whichever of the two came first. -/
structure Tops (beats : α → α → Option Bool) (plays : α → Prop) (top : α) : Prop where
  comparable : ∀ x y, plays x → plays y → (beats x y).isSome = true
  wins : ∀ x, plays x → x ≠ top → beats top x = some true
  stands : ∀ x, plays x → x ≠ top → beats x top ≠ some true

theorem Tops.contest_eq {plays : α → Prop} {top : α} (h : Tops beats plays top) :
    ∀ (entrants : List ι) (best : Option α), (∀ z, best = some z → plays z) →
      (∀ i ∈ entrants, ∀ x, val i = some x → plays x) →
      (best = some top ∨ ∃ i ∈ entrants, val i = some top) →
      contest beats val best entrants = some (some top) := by
  intro entrants
  induction entrants with
  | nil =>
    rintro best - - (rfl | ⟨i, hi, -⟩)
    · rfl
    · cases hi
  | cons i rest ih =>
    intro best hbest henters hin
    have hrest : ∀ j ∈ rest, ∀ x, val j = some x → plays x :=
      fun j hj => henters j (List.mem_cons_of_mem i hj)
    rw [contest_cons]
    cases hval : val i with
    | none =>
      refine ih best hbest hrest (hin.imp id ?_)
      rintro ⟨j, hj, hjval⟩
      rcases List.mem_cons.mp hj with rfl | hj
      · rw [hval] at hjval
        cases hjval
      · exact ⟨j, hj, hjval⟩
    | some x =>
      have hx := henters i List.mem_cons_self x hval
      have hlater : (∃ j ∈ i :: rest, val j = some top) → x ≠ top →
          ∃ j ∈ rest, val j = some top := by
        rintro ⟨j, hj, hjval⟩ hne
        rcases List.mem_cons.mp hj with rfl | hj
        · exact absurd (Option.some.inj (hval.symm.trans hjval)) hne
        · exact ⟨j, hj, hjval⟩
      cases best with
      | none =>
        refine ih (some x) (fun z hz => Option.some.inj hz ▸ hx) hrest ?_
        by_cases hxtop : x = top
        · exact .inl (congrArg some hxtop)
        · exact .inr (hlater (hin.resolve_left fun heq => (by cases heq)) hxtop)
      | some held =>
        have hheld := hbest held rfl
        obtain ⟨newer, hnewer⟩ :=
          Option.isSome_iff_exists.mp (h.comparable x held hx hheld)
        rw [challenge_held hnewer]
        refine ih _ (fun z hz => ?_) hrest ?_
        · rw [← Option.some.inj hz]
          cases newer with
          | true => exact hx
          | false => exact hheld
        · by_cases hheldtop : held = top
          · -- the value on top is not replaced by another one
            subst hheldtop
            cases newer with
            | false => exact .inl rfl
            | true =>
              by_cases hxtop : x = held
              · exact .inl (congrArg some hxtop)
              · exact absurd hnewer (h.stands x hx hxtop)
          · by_cases hxtop : x = top
            · have hwins := h.wins held hheld hheldtop
              rw [← hxtop, hnewer] at hwins
              rw [Option.some.inj hwins, hxtop]
              exact .inl rfl
            · refine .inr (hlater (hin.resolve_left fun heq => ?_) hxtop)
              exact hheldtop (Option.some.inj heq)

/-- What stands at the end has been brought by somebody. -/
theorem mem_of_contest : ∀ (entrants : List ι) (best : Option α) {z : α},
    contest beats val best entrants = some (some z) →
      best = some z ∨ ∃ i ∈ entrants, val i = some z := by
  intro entrants
  induction entrants with
  | nil =>
    intro best z h
    exact .inl (Option.some.inj h)
  | cons i rest ih =>
    intro best z h
    rw [contest_cons] at h
    obtain ⟨next, hnext, hlater⟩ := Option.bind_eq_some_iff.mp h
    have hnext' : next = best ∨ next = val i := by
      cases hval : val i with
      | none =>
        rw [hval] at hnext
        exact .inl (Option.some.inj hnext).symm
      | some x =>
        rw [hval] at hnext
        cases best with
        | none => exact .inr (Option.some.inj hnext).symm
        | some held =>
          obtain ⟨newer, -, heq⟩ := Option.map_eq_some_iff.mp hnext
          rw [← heq]
          cases newer with
          | true => exact .inr rfl
          | false => exact .inl rfl
    rcases ih next hlater with hz | ⟨j, hj, hjval⟩
    · rcases hnext' with rfl | rfl
      · exact .inl hz
      · exact .inr ⟨i, List.mem_cons_self, hz⟩
    · exact .inr ⟨j, List.mem_cons_of_mem i hj, hjval⟩

/-! ## The other direction: small contests -/

theorem contest_first {i : ι} {x : α} (hx : val i = some x) (rest : List ι) :
    contest beats val none (i :: rest) = contest beats val (some x) rest := by
  rw [contest_cons, hx, challenge_first]
  rfl

theorem contest_next {i : ι} {x held : α} {newer : Bool} (hx : val i = some x)
    (h : beats x held = some newer) (rest : List ι) :
    contest beats val (some held) (i :: rest) =
      contest beats val (some (if newer then x else held)) rest := by
  rw [contest_cons, hx, challenge_held h]
  rfl

theorem isSome_of_contest {i : ι} {x held : α} {rest : List ι} {best : Option α}
    (hx : val i = some x) (h : contest beats val (some held) (i :: rest) = some best) :
    (beats x held).isSome = true := by
  rw [contest_cons, hx] at h
  cases hbeats : beats x held with
  | some newer => rfl
  | none =>
    unfold challenge at h
    dsimp only at h
    rw [hbeats] at h
    cases h

section

variable (h : Wins beats val enters strong own)
include h

theorem Wins.two {i j : ι} {x y : α} (hi : enters i)
    (hj : enters j) (hne : i ≠ j) (hx : val i = some x) (hy : val j = some y)
    (hstrong : strong i ∨ strong j) : ∃ newer, beats y x = some newer ∧
      own (if newer then y else x) := by
  obtain ⟨z, hz, hown⟩ := h [i, j]
    (List.nodup_cons.mpr ⟨fun hmem => hne (List.mem_singleton.mp hmem), List.nodup_cons.mpr
      ⟨List.not_mem_nil, List.nodup_nil⟩⟩)
    (by
      intro k hk
      rcases List.mem_cons.mp hk with rfl | hk
      · exact hi
      · rw [List.mem_singleton.mp hk]
        exact hj)
    (by
      rcases hstrong with hs | hs
      · exact ⟨i, List.mem_cons_self, hs⟩
      · exact ⟨j, List.mem_cons_of_mem i (List.mem_singleton_self j), hs⟩)
  rw [contest_first hx] at hz
  obtain ⟨newer, hnewer⟩ := Option.isSome_iff_exists.mp (isSome_of_contest hy hz)
  rw [contest_next hy hnewer] at hz
  cases hz
  exact ⟨newer, hnewer, hown⟩

theorem Wins.three {i j k : ι} {x y z : α}
    (hi : enters i) (hj : enters j) (hk : enters k) (hij : i ≠ j) (hik : i ≠ k) (hjk : j ≠ k)
    (hx : val i = some x) (hy : val j = some y) (hz : val k = some z)
    (hstrong : strong j ∨ strong k) : ∃ newer newest, beats y x = some newer ∧
      beats z (if newer then y else x) = some newest ∧
      own (if newest then z else if newer then y else x) := by
  obtain ⟨w, hw, hown⟩ := h [i, j, k]
    (by
      refine List.nodup_cons.mpr ⟨fun hmem => ?_, List.nodup_cons.mpr
        ⟨fun hmem => hjk (List.mem_singleton.mp hmem), List.nodup_cons.mpr
          ⟨List.not_mem_nil, List.nodup_nil⟩⟩⟩
      rcases List.mem_cons.mp hmem with heq | hmem
      · exact hij heq
      · exact hik (List.mem_singleton.mp hmem))
    (by
      intro l hl
      rcases List.mem_cons.mp hl with rfl | hl
      · exact hi
      · rcases List.mem_cons.mp hl with rfl | hl
        · exact hj
        · rw [List.mem_singleton.mp hl]
          exact hk)
    (by
      rcases hstrong with hs | hs
      · exact ⟨j, List.mem_cons_of_mem i List.mem_cons_self, hs⟩
      · exact ⟨k, List.mem_cons_of_mem i (List.mem_cons_of_mem j (List.mem_singleton_self k)),
          hs⟩)
  rw [contest_first hx] at hw
  obtain ⟨newer, hnewer⟩ := Option.isSome_iff_exists.mp (isSome_of_contest hy hw)
  rw [contest_next hy hnewer] at hw
  obtain ⟨newest, hnewest⟩ := Option.isSome_iff_exists.mp (isSome_of_contest hz hw)
  rw [contest_next hz hnewest] at hw
  cases hw
  exact ⟨newer, newest, hnewer, hnewest, hown⟩

theorem Wins.brings {r : ι} (henters : enters r) (hr : strong r) : ∃ x, val r = some x ∧ own x := by
  obtain ⟨x, hx, hown⟩ := h [r] (List.nodup_cons.mpr ⟨List.not_mem_nil, List.nodup_nil⟩)
    (fun i hi => List.mem_singleton.mp hi ▸ henters) ⟨r, List.mem_singleton_self r, hr⟩
  cases hval : val r with
  | none =>
    rw [contest_cons, hval] at hx
    cases hx
  | some y =>
    rw [contest_first hval] at hx
    cases hx
    exact ⟨x, rfl, hown⟩

theorem Wins.secure (hB : Orderly beats own)
    (hstrong : ∀ r, strong r → enters r) : Secure beats val enters strong own := by
  have hbrings : ∀ r x, strong r → val r = some x → own x := by
    intro r x hr hx
    obtain ⟨x', hx', hown⟩ := h.brings (hstrong r hr) hr
    rw [hx, Option.some.injEq] at hx'
    rw [hx']
    exact hown
  have hprevails : ∀ r b x y, strong r → enters b → val r = some x → val b = some y → ¬ own y →
      beats x y = some true := by
    intro r b x y hr hb hx hy hrival
    have hne : b ≠ r := fun heq => hrival (hbrings r y hr (heq ▸ hy))
    obtain ⟨newer, hnewer, hown⟩ := h.two hb (hstrong r hr) hne hy hx (.inr hr)
    cases newer with
    | true => exact hnewer
    | false => exact absurd hown hrival
  refine ⟨fun r hr => h.brings (hstrong r hr) hr, ?_, hprevails, ?_⟩
  · intro r i j x y hr hi hj hij hx hy
    by_cases hpair : strong i ∨ strong j
    · obtain ⟨newer, hnewer, -⟩ := h.two hi hj hij hx hy hpair
      exact Option.isSome_of_eq_some hnewer
    · -- the strong entrant comes third
      obtain ⟨x', hx', -⟩ := h.brings (hstrong r hr) hr
      obtain ⟨newer, -, hnewer, -⟩ := h.three hi hj (hstrong r hr) hij
        (fun heq => hpair (.inl (heq ▸ hr))) (fun heq => hpair (.inr (heq ▸ hr))) hx hy hx'
        (.inr hr)
      exact Option.isSome_of_eq_some hnewer
  · intro r i b x z y hr hi hb hx hz hown hy hrival hbeats
    have hbr : r ≠ b := fun heq => hrival (hbrings r y hr (heq ▸ hy))
    have hib : i ≠ b := by
      rintro rfl
      rw [hz, Option.some.injEq] at hy
      exact hrival (hy ▸ hown)
    by_cases hir : i = r
    · subst hir
      rw [hx, Option.some.injEq] at hz
      subst hz
      exact absurd hbeats (hB.asymm x y (hprevails i b x y hr hb hx hy hrival))
    · obtain ⟨newer, newest, hnewer, hnewest, hwin⟩ :=
        h.three hi (hstrong r hr) hb hir hib hbr hz hx hy (.inl hr)
      cases newer with
      | true => exact hnewer
      | false =>
        -- the value stands until the rival comes
        replace hnewest : beats y z = some newest := hnewest
        rw [hbeats, Option.some.injEq] at hnewest
        subst hnewest
        exact absurd hwin hrival

end

/-- A kind of value stands at the end of every contest with a strong entrant exactly when it is
secure. -/
theorem wins_iff_secure (hB : Orderly beats own) (hstrong : ∀ r, strong r → enters r) :
    Wins beats val enters strong own ↔ Secure beats val enters strong own :=
  ⟨fun h => h.secure hB hstrong, fun h => h.wins hB⟩

end Winning

end NeuronWeb.Contest
