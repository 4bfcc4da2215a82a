/-
  Storage/ProviderSelection: which providers a node asks to hold a replica (`selectProviders`
  in `network/storage-manager.ts`).

  The candidates are grouped by country. The countries draw in turn, by weight, from those of
  their providers whose machine is not represented yet, until enough are drawn or a whole round
  draws none.

  A country that draws does not look at what the countries after it could still use.
-/
import NeuronWeb.Content.CustodyLiveness
import NeuronWeb.Foundation.Grouping
import NeuronWeb.Foundation.Matching
import NeuronWeb.Foundation.Run

set_option autoImplicit false

namespace NeuronWeb

deriving instance DecidableEq for StorageProviderState

variable {F : Type}

/-- The machine of a provider; one that names no device counts as its own. -/
def StorageProviderState.machine (p : StorageProviderState F) : String :=
  if p.deviceId ≠ "" then "dev:" ++ p.deviceId else "pub:" ++ p.pub

/-- The group that a provider is drawn from; unknown countries are one group. -/
def StorageProviderState.country (p : StorageProviderState F) : String := p.countryCode.getD "__"

/-- What a selection reads besides the ledger. -/
structure SelectionEnv where
  /-- `getDeviceId()`. -/
  localDeviceId : String
  startedAt : Int
  now : Int
  /-- `HEARTBEAT_INTERVAL_MS` of the timing profile in force. -/
  heartbeatIntervalMs : Int
  /-- `MAX_OFFLINE_MS` of the timing profile in force. -/
  maxOfflineMs : Int

def SelectionEnv.inWarmup (E : SelectionEnv) : Bool :=
  decide (0 < E.startedAt) && decide (E.now - E.startedAt < E.heartbeatIntervalMs)

/-- What a selection has drawn. -/
structure Selecting (F : Type) where
  selected : List (StorageProviderState F)
  usedPubs : JsSet Hex
  usedDomains : JsSet String

namespace Selecting

def start : Selecting F := ⟨[], .empty, .empty⟩

def push (s : Selecting F) (picked : StorageProviderState F) : Selecting F where
  selected := s.selected ++ [picked]
  usedPubs := s.usedPubs.add picked.pub
  usedDomains := s.usedDomains.add picked.machine

/-- The providers of a group that may still be drawn. -/
def pool (s : Selecting F) (group : List (StorageProviderState F)) :
    List (StorageProviderState F) :=
  group.filter fun p => !s.usedPubs.has p.pub && !s.usedDomains.has p.machine

end Selecting

variable [JsNumber F]

/-- One provider through the filter for the candidates, with the tracker that a look at the
lease leaves behind. -/
def keepCandidate (E : SelectionEnv) (L : ProviderLedger F)
    (kept : List (StorageProviderState F) × CustodyLiveness) (p : StorageProviderState F) :
    List (StorageProviderState F) × CustodyLiveness :=
  if p.deviceId ≠ "" ∧ p.deviceId = E.localDeviceId then kept
  else if E.inWarmup then (kept.1 ++ [p], kept.2)
  else L.keepLive E.maxOfflineMs E.now kept p

def selectionCandidates (E : SelectionEnv) (L : ProviderLedger F) (T : CustodyLiveness) :
    List (StorageProviderState F) × CustodyLiveness :=
  L.allProviders.foldl (keepCandidate E L) ([], T)

/-! ## Drawing -/

/-- `Math.max(0.01, Math.min(p.capacityGB, 100) * Math.max(0.1, p.score))`. -/
def StorageProviderState.weight (p : StorageProviderState F) : F :=
  JsNumber.max (JsNumber.div (JsNumber.ofInt 1) (JsNumber.ofInt 100))
    (JsNumber.mul (JsNumber.min p.capacityGB (JsNumber.ofInt 100))
      (JsNumber.max ProviderLedger.oneTenth p.score))

def totalWeight (pool : List (StorageProviderState F)) : F :=
  (pool.map StorageProviderState.weight).foldl JsNumber.add (JsNumber.ofInt 0)

/-- The loop over the weights, until `r` is used up. -/
def spin (r : F) : List (StorageProviderState F) → Option (StorageProviderState F)
  | [] => none
  | p :: rest =>
    let r := JsNumber.sub r p.weight
    if JsNumber.le r (JsNumber.ofInt 0) then some p else spin r rest

/-- The weighted draw from a pool, with the value of `Math.random()`. -/
def draw (random : F) (pool : List (StorageProviderState F)) : Option (StorageProviderState F) :=
  (spin (JsNumber.mul random (totalWeight pool)) pool).or pool.getLast?

namespace Selecting

variable (random : Nat → F)

/-- `pickWeighted(group)`.  `Math.random()` is read once for every provider that is picked. -/
def pickWeighted (s : Selecting F) (group : List (StorageProviderState F)) :
    Option (StorageProviderState F) :=
  draw (random s.selected.length) (s.pool group)

/-- One round: each group in turn, until `take` are selected. -/
def round (take : Nat) : List (List (StorageProviderState F)) → Selecting F → Selecting F
  | [], s => s
  | group :: rest, s =>
    if take ≤ s.selected.length then s
    else match s.pickWeighted random group with
      | some picked => round take rest (s.push picked)
      | none => round take rest s

/-- The rounds; `none` when `fuel` rounds do not end them. -/
def rounds (take : Nat) (groups : List (List (StorageProviderState F))) :
    Nat → Selecting F → Option (List (StorageProviderState F))
  | 0, _ => none
  | fuel + 1, s =>
    if take ≤ s.selected.length then some s.selected
    else
      let next := s.round random take groups
      -- `addedThisRound === 0`
      if next.selected.length = s.selected.length then some next.selected
      else rounds take groups fuel next

end Selecting

/-- The candidates by country. -/
def byCountry (candidates : List (StorageProviderState F)) :
    List (List (StorageProviderState F)) :=
  (groupOn StorageProviderState.country candidates).values

/-- The selection among the candidates. -/
def selectAmong (random : Nat → F) (candidates : List (StorageProviderState F)) (count : Nat)
    (fuel : Nat) : Option (List (StorageProviderState F)) :=
  if candidates.isEmpty then some []
  else Selecting.start.rounds random (min count candidates.length) (byCountry candidates) fuel

/-- Select up to `count` storage providers. -/
def selectProviders (E : SelectionEnv) (L : ProviderLedger F) (T : CustodyLiveness)
    (random : Nat → F) (count fuel : Nat) :
    Option (List (StorageProviderState F)) × CustodyLiveness :=
  let (candidates, T) := selectionCandidates E L T
  (selectAmong random candidates count fuel, T)

/-! ## Drawing in turn -/

/-- The providers whose machine is not among those picked. -/
def unrepresented (picks group : List (StorageProviderState F)) : List (StorageProviderState F) :=
  group.filter fun p => decide (p.machine ∉ picks.map StorageProviderState.machine)

/-- Each group draws once, in turn, a provider whose machine is not among those picked. -/
def drawInTurn (random : Nat → F) : List (List (StorageProviderState F)) →
    List (StorageProviderState F) → List (StorageProviderState F)
  | [], picks => picks
  | group :: rest, picks =>
    drawInTurn random rest
      (picks ++ (draw (random picks.length) (unrepresented picks group)).toList)

section Draw

variable {random : Nat → F} {r : F} {pool group picks : List (StorageProviderState F)}
  {groups : List (List (StorageProviderState F))} {p : StorageProviderState F}

theorem mem_of_spin (h : spin r pool = some p) : p ∈ pool := by
  induction pool generalizing r with
  | nil => cases h
  | cons head rest ih =>
    rw [spin] at h
    split at h
    case isTrue => exact Option.some.inj h ▸ List.mem_cons_self
    case isFalse => exact List.mem_cons_of_mem head (ih h)

theorem mem_of_draw (h : draw r pool = some p) : p ∈ pool := by
  rw [draw, Option.or_eq_some_iff] at h
  rcases h with hspin | ⟨-, hlast⟩
  · exact mem_of_spin hspin
  · exact List.mem_of_getLast? hlast

theorem draw_eq_none_iff : draw r pool = none ↔ pool = [] := by
  rw [draw, Option.or_eq_none_iff, List.getLast?_eq_none_iff]
  refine ⟨And.right, fun hnil => ⟨?_, hnil⟩⟩
  rw [hnil]
  rfl

omit [JsNumber F] in
theorem mem_unrepresented : p ∈ unrepresented picks group ↔
    p ∈ group ∧ ∀ picked ∈ picks, picked.machine ≠ p.machine := by
  rw [unrepresented, List.mem_filter, decide_eq_true_iff, List.mem_map]
  simp only [not_exists, not_and]

omit [JsNumber F] in
theorem represented_of_none (hnone : unrepresented picks group = []) (hp : p ∈ group) :
    ∃ picked ∈ picks, picked.machine = p.machine := by
  by_contra hfree
  simp only [not_exists, not_and] at hfree
  have hmem : p ∈ unrepresented picks group := mem_unrepresented.mpr ⟨hp, hfree⟩
  rw [hnone] at hmem
  cases hmem

theorem drawInTurn_cons_cases (random : Nat → F) (group : List (StorageProviderState F))
    (rest : List (List (StorageProviderState F))) (picks : List (StorageProviderState F)) :
    (unrepresented picks group = [] ∧
      drawInTurn random (group :: rest) picks = drawInTurn random rest picks) ∨
    ∃ p ∈ unrepresented picks group,
      draw (random picks.length) (unrepresented picks group) = some p ∧
      drawInTurn random (group :: rest) picks = drawInTurn random rest (picks ++ [p]) := by
  rw [drawInTurn]
  cases hdraw : draw (random picks.length) (unrepresented picks group) with
  | none => exact .inl ⟨draw_eq_none_iff.mp hdraw, congrArg _ (List.append_nil picks)⟩
  | some p => exact .inr ⟨p, mem_of_draw hdraw, rfl, rfl⟩

theorem prefix_drawInTurn (random : Nat → F) (groups : List (List (StorageProviderState F)))
    (picks : List (StorageProviderState F)) : picks <+: drawInTurn random groups picks := by
  induction groups generalizing picks with
  | nil => exact List.prefix_rfl
  | cons group rest ih => exact (List.prefix_append picks _).trans (ih _)

omit [JsNumber F] in
theorem nodup_map_concat {f : StorageProviderState F → String} (hnodup : (picks.map f).Nodup)
    (hne : ∀ picked ∈ picks, f picked ≠ f p) : ((picks ++ [p]).map f).Nodup := by
  rw [List.map_append, List.map_singleton]
  refine hnodup.append (List.nodup_singleton _) ?_
  rw [List.disjoint_singleton]
  intro hmem
  obtain ⟨picked, hpicked, hsame⟩ := List.mem_map.mp hmem
  exact hne picked hpicked hsame

theorem nodup_machine_drawInTurn (hnodup : (picks.map StorageProviderState.machine).Nodup) :
    ((drawInTurn random groups picks).map StorageProviderState.machine).Nodup := by
  induction groups generalizing picks with
  | nil => exact hnodup
  | cons group rest ih =>
    obtain ⟨-, hturn⟩ | ⟨p, hp, -, hturn⟩ := drawInTurn_cons_cases random group rest picks
    · rw [hturn]
      exact ih hnodup
    · rw [hturn]
      exact ih (nodup_map_concat hnodup (mem_unrepresented.mp hp).2)

theorem mem_drawInTurn (h : p ∈ drawInTurn random groups picks) :
    p ∈ picks ∨ ∃ group ∈ groups, p ∈ group := by
  induction groups generalizing picks with
  | nil => exact .inl h
  | cons group rest ih =>
    obtain ⟨-, hturn⟩ | ⟨q, hq, -, hturn⟩ := drawInTurn_cons_cases random group rest picks
    · rw [hturn] at h
      rcases ih h with hmem | ⟨g, hg, hp⟩
      · exact .inl hmem
      · exact .inr ⟨g, List.mem_cons_of_mem group hg, hp⟩
    · rw [hturn] at h
      rcases ih h with hmem | ⟨g, hg, hp⟩
      · rcases List.mem_append.mp hmem with hmem | hmem
        · exact .inl hmem
        · rw [List.mem_singleton] at hmem
          exact .inr ⟨group, List.mem_cons_self, hmem ▸ (mem_unrepresented.mp hq).1⟩
      · exact .inr ⟨g, List.mem_cons_of_mem group hg, hp⟩

theorem turn_taken (random : Nat → F) (picks : List (StorageProviderState F))
    (hgroup : group ∈ groups) (hp : p ∈ group) :
    (∃ picked ∈ drawInTurn random groups picks, picked ∈ group) ∨
    ∃ picked ∈ drawInTurn random groups picks, picked.machine = p.machine := by
  induction groups generalizing picks with
  | nil => cases hgroup
  | cons head rest ih =>
    rcases List.mem_cons.mp hgroup with rfl | hgroup
    · obtain ⟨hnone, hturn⟩ | ⟨q, hq, -, hturn⟩ := drawInTurn_cons_cases random group rest picks
      · obtain ⟨picked, hpicked, hsame⟩ := represented_of_none hnone hp
        rw [hturn]
        exact .inr ⟨picked, (prefix_drawInTurn random rest picks).subset hpicked, hsame⟩
      · rw [hturn]
        refine .inl ⟨q, ?_, (mem_unrepresented.mp hq).1⟩
        exact (prefix_drawInTurn random rest _).subset
          (List.mem_append_right picks List.mem_cons_self)
    · rw [drawInTurn]
      exact ih _ hgroup

theorem represented_of_idle (hidle : drawInTurn random groups picks = picks)
    (hgroup : group ∈ groups) (hp : p ∈ group) :
    ∃ picked ∈ picks, picked.machine = p.machine := by
  induction groups with
  | nil => cases hgroup
  | cons head rest ih =>
    obtain ⟨hnone, hturn⟩ | ⟨q, -, -, hturn⟩ := drawInTurn_cons_cases random head rest picks
    · rcases List.mem_cons.mp hgroup with rfl | hgroup
      · exact represented_of_none hnone hp
      · exact ih (hturn.symm.trans hidle) hgroup
    · have hlength := (prefix_drawInTurn random rest (picks ++ [q])).length_le
      rw [← hturn, hidle, List.length_append, List.length_singleton] at hlength
      omega

end Draw

/-! ## The rounds draw in turn -/

section Rounds

variable {random : Nat → F} {C group : List (StorageProviderState F)} {s : Selecting F}
  {groups : List (List (StorageProviderState F))} {p q : StorageProviderState F} {take : Nat}

/-- The sets of a selection are those of what it selected. -/
structure Selecting.Recorded (C : List (StorageProviderState F)) (s : Selecting F) : Prop where
  subset : s.selected ⊆ C
  machines : (s.selected.map StorageProviderState.machine).Nodup
  pubs : ∀ pub, s.usedPubs.has pub = true ↔ ∃ p ∈ s.selected, p.pub = pub
  domains : ∀ domain, s.usedDomains.has domain = true ↔ ∃ p ∈ s.selected, p.machine = domain

section

omit [JsNumber F]

theorem recorded_start (C : List (StorageProviderState F)) : Selecting.start.Recorded C where
  subset := List.nil_subset C
  machines := List.nodup_nil
  pubs _ := by simp [Selecting.start, JsMap.has, JsMap.get?, JsMap.empty, JsMap.find_nil]
  domains _ := by simp [Selecting.start, JsMap.has, JsMap.get?, JsMap.empty, JsMap.find_nil]

theorem has_add_iff {K : Type} [DecidableEq K] {f : StorageProviderState F → K} {used : JsSet K}
    {selected : List (StorageProviderState F)}
    (h : ∀ k, used.has k = true ↔ ∃ p ∈ selected, f p = k) (k : K) :
    (used.add (f q)).has k = true ↔ ∃ p ∈ selected ++ [q], f p = k := by
  rw [JsSet.has_add, Bool.or_eq_true, decide_eq_true_iff, h]
  simp only [List.mem_append, List.mem_singleton, or_and_right, exists_or, exists_eq_left]
  exact or_comm

theorem Selecting.Recorded.push (h : s.Recorded C) (hp : p ∈ C)
    (hfree : ∀ picked ∈ s.selected, picked.machine ≠ p.machine) : (s.push p).Recorded C where
  subset := List.append_subset.mpr ⟨h.subset, List.cons_subset.mpr ⟨hp, List.nil_subset C⟩⟩
  machines := nodup_map_concat h.machines hfree
  pubs := has_add_iff h.pubs
  domains := has_add_iff h.domains

theorem Selecting.Recorded.pool_eq (h : s.Recorded C)
    (hpubs : (C.map StorageProviderState.pub).Nodup) (hgroup : group ⊆ C) :
    s.pool group = unrepresented s.selected group := by
  refine List.filter_congr fun p hp => ?_
  rw [Bool.eq_iff_iff, Bool.and_eq_true, Bool.not_eq_true', Bool.not_eq_true',
    ← Bool.not_eq_true, ← Bool.not_eq_true, h.pubs, h.domains, decide_eq_true_iff, List.mem_map]
  refine ⟨And.right, fun hfree => ⟨?_, hfree⟩⟩
  intro hused
  obtain ⟨picked, hpicked, hsame⟩ := hused
  have heq : picked = p :=
    List.inj_on_of_nodup_map hpubs (h.subset hpicked) (hgroup hp) hsame
  exact hfree ⟨picked, hpicked, congrArg _ heq⟩

end

theorem Selecting.Recorded.round (h : s.Recorded C) (random : Nat → F)
    (hpubs : (C.map StorageProviderState.pub).Nodup) (hgroups : ∀ group ∈ groups, group ⊆ C)
    (hle : s.selected.length ≤ take) : (s.round random take groups).Recorded C ∧
      (s.round random take groups).selected =
        (drawInTurn random groups s.selected).take take := by
  induction groups generalizing s with
  | nil => exact ⟨h, (List.take_of_length_le hle).symm⟩
  | cons group rest ih =>
    have hgroup := hgroups group List.mem_cons_self
    have hrest : ∀ group' ∈ rest, group' ⊆ C := fun group' hmem =>
      hgroups group' (List.mem_cons_of_mem group hmem)
    rw [Selecting.round]
    split
    case isTrue hfull =>
      refine ⟨h, ?_⟩
      have hfront := prefix_drawInTurn random (group :: rest) s.selected
      rw [show take = s.selected.length from Nat.le_antisymm hfull hle]
      exact List.prefix_iff_eq_take.mp hfront
    case isFalse hopen =>
      have hpick : s.pickWeighted random group =
          draw (random s.selected.length) (unrepresented s.selected group) := by
        rw [Selecting.pickWeighted, h.pool_eq hpubs hgroup]
      obtain ⟨hnone, hturn⟩ | ⟨p, hp, hdraw, hturn⟩ :=
        drawInTurn_cons_cases random group rest s.selected
      · rw [hpick, draw_eq_none_iff.mpr hnone, hturn]
        exact ih h hrest hle
      · obtain ⟨hmem, hfree⟩ := mem_unrepresented.mp hp
        rw [hpick, hdraw, hturn]
        refine ih (h.push (hgroup hmem) hfree) hrest ?_
        rw [Selecting.push, List.length_append, List.length_singleton]
        omega

theorem drawInTurn_eq_of_idle {picks : List (StorageProviderState F)} (hlt : picks.length < take)
    (hidle : ((drawInTurn random groups picks).take take).length = picks.length) :
    drawInTurn random groups picks = picks := by
  rw [List.length_take] at hidle
  exact ((prefix_drawInTurn random groups picks).eq_of_length_le (by omega)).symm

/-- A selection that can go no further: enough are selected, or every machine is represented. -/
structure Exhausted (C : List (StorageProviderState F)) (take : Nat)
    (selected : List (StorageProviderState F)) : Prop where
  subset : selected ⊆ C
  machines : (selected.map StorageProviderState.machine).Nodup
  length_le : selected.length ≤ take
  done : selected.length = take ∨ ∀ p ∈ C, ∃ picked ∈ selected, picked.machine = p.machine

/-- The rounds end, after what the first of them draws in turn. -/
theorem Selecting.Recorded.rounds (random : Nat → F)
    (hpubs : (C.map StorageProviderState.pub).Nodup)
    (hgroups : ∀ group ∈ groups, group ⊆ C) (hcovered : ∀ p ∈ C, ∃ group ∈ groups, p ∈ group)
    (missing : Nat) : ∀ {s : Selecting F}, s.Recorded C → s.selected.length + missing = take →
    ∃ selected, (∀ fuel, missing < fuel →
        s.rounds random take groups fuel = some selected) ∧
      Exhausted C take selected ∧
      (drawInTurn random groups s.selected).take take <+: selected := by
  induction missing using Nat.strong_induction_on with
  | _ missing ih =>
    intro s h htake
    have hwithin : s.selected.length ≤ take := by omega
    obtain ⟨hnext, hselected⟩ := h.round random hpubs hgroups hwithin
    have hfront : s.selected <+: (s.round random take groups).selected := by
      rw [hselected]
      exact List.prefix_take_iff.mpr ⟨prefix_drawInTurn random groups s.selected, hwithin⟩
    have hle : (s.round random take groups).selected.length ≤ take := by
      rw [hselected]
      exact List.length_take_le _ _
    by_cases hfull : take ≤ s.selected.length
    · have hsame : s.selected = (s.round random take groups).selected :=
        hfront.eq_of_length_le (hle.trans hfull)
      have hlength : s.selected.length = take := by omega
      refine ⟨s.selected, fun fuel hfuel => ?_,
        ⟨h.subset, h.machines, hlength.le, .inl hlength⟩, ?_⟩
      · obtain ⟨fuel, rfl⟩ := Nat.exists_eq_add_of_lt hfuel
        rw [Selecting.rounds, if_pos hfull]
      · rw [← hselected, ← hsame]
    · by_cases hidle : (s.round random take groups).selected.length = s.selected.length
      · refine ⟨(s.round random take groups).selected, fun fuel hfuel => ?_,
          ⟨hnext.subset, hnext.machines, hle, .inr fun p hp => ?_⟩, ?_⟩
        · obtain ⟨fuel, rfl⟩ := Nat.exists_eq_add_of_lt hfuel
          rw [Selecting.rounds, if_neg hfull]
          exact if_pos hidle
        · obtain ⟨group, hgroup, hmem⟩ := hcovered p hp
          have hnone := drawInTurn_eq_of_idle (Nat.lt_of_not_le hfull) (hselected ▸ hidle)
          obtain ⟨picked, hpicked, hsame⟩ := represented_of_idle hnone hgroup hmem
          exact ⟨picked, hfront.subset hpicked, hsame⟩
        · rw [hselected]
      · have hlength := hfront.length_le
        obtain ⟨selected, hrun, hdone, hfirst⟩ :=
          ih (take - (s.round random take groups).selected.length) (by omega) hnext (by omega)
        refine ⟨selected, fun fuel hfuel => ?_, hdone, ?_⟩
        · obtain ⟨fuel, rfl⟩ := Nat.exists_eq_add_of_lt hfuel
          rw [Selecting.rounds, if_neg hfull]
          exact (if_neg hidle).trans (hrun (missing + fuel) (by omega))
        · have hkept := List.prefix_take_iff.mpr
            ⟨prefix_drawInTurn random groups (s.round random take groups).selected, hle⟩
          rw [← hselected]
          exact hkept.trans hfirst

end Rounds

/-! ## The first draws -/

section FirstDraws

variable {random : Nat → F} {C : List (StorageProviderState F)} {p q : StorageProviderState F}

/-- The provider that each country draws first. -/
def firstDraws (random : Nat → F) (candidates : List (StorageProviderState F)) :
    List (StorageProviderState F) :=
  drawInTurn random (byCountry candidates) []

section

omit [JsNumber F]

/-- The candidates of a country. -/
def ofCountry (candidates : List (StorageProviderState F)) (country : String) :
    List (StorageProviderState F) :=
  candidates.filter fun p => decide (p.country = country)

theorem byCountry_eq (candidates : List (StorageProviderState F)) : byCountry candidates =
    (groupOn StorageProviderState.country candidates).keys.map (ofCountry candidates) :=
  values_groupOn candidates

theorem subset_of_mem_byCountry {group : List (StorageProviderState F)}
    (h : group ∈ byCountry C) : group ⊆ C := by
  rw [byCountry_eq, List.mem_map] at h
  obtain ⟨country, -, rfl⟩ := h
  exact List.filter_subset_self _

theorem ofCountry_mem_byCountry (h : p ∈ C) : ofCountry C p.country ∈ byCountry C := by
  rw [byCountry_eq]
  exact List.mem_map.mpr ⟨p.country, (mem_keys_groupOn C p.country).mpr ⟨p, h, rfl⟩, rfl⟩

theorem mem_ofCountry {country : String} :
    p ∈ ofCountry C country ↔ p ∈ C ∧ p.country = country := by
  rw [ofCountry, List.mem_filter, decide_eq_true_iff]

end

theorem nodup_country_drawInTurn {countries : List String}
    {picks : List (StorageProviderState F)} (hcountries : countries.Nodup)
    (hfresh : ∀ picked ∈ picks, picked.country ∉ countries)
    (hnodup : (picks.map StorageProviderState.country).Nodup) :
    ((drawInTurn random (countries.map (ofCountry C)) picks).map
      StorageProviderState.country).Nodup := by
  induction countries generalizing picks with
  | nil => exact hnodup
  | cons country rest ih =>
    obtain ⟨hhead, hrest⟩ := List.nodup_cons.mp hcountries
    have hlater : ∀ picked ∈ picks, picked.country ∉ rest := fun picked hpicked hmem =>
      hfresh picked hpicked (List.mem_cons_of_mem country hmem)
    rw [List.map_cons]
    obtain ⟨-, hturn⟩ | ⟨p, hp, -, hturn⟩ :=
      drawInTurn_cons_cases random (ofCountry C country) (rest.map (ofCountry C)) picks
    · rw [hturn]
      exact ih hrest hlater hnodup
    · have hcountry : p.country = country :=
        (mem_ofCountry.mp (mem_unrepresented.mp hp).1).2
      rw [hturn]
      refine ih hrest (fun picked hpicked => ?_)
        (nodup_map_concat hnodup fun picked hpicked => ?_)
      · rcases List.mem_append.mp hpicked with hpicked | hpicked
        · exact hlater picked hpicked
        · rw [List.mem_singleton.mp hpicked, hcountry]
          exact hhead
      · rw [hcountry]
        exact fun hsame => hfresh picked hpicked (hsame ▸ List.mem_cons_self)

theorem firstDraws_subset (random : Nat → F) (C : List (StorageProviderState F)) :
    firstDraws random C ⊆ C := by
  intro p hp
  rcases mem_drawInTurn hp with hnil | ⟨group, hgroup, hmem⟩
  · cases hnil
  · exact subset_of_mem_byCountry hgroup hmem

theorem pairing_firstDraws (random : Nat → F) (C : List (StorageProviderState F)) :
    Matching.Pairing StorageProviderState.country StorageProviderState.machine
      (firstDraws random C) where
  left := by
    rw [firstDraws, byCountry_eq]
    exact nodup_country_drawInTurn (groupOn _ C).nodup
      (fun picked hpicked => absurd hpicked List.not_mem_nil) List.nodup_nil
  right := nodup_machine_drawInTurn List.nodup_nil

theorem firstDraws_taken (random : Nat → F) (hq : q ∈ C) :
    (∃ p ∈ firstDraws random C, p.country = q.country) ∨
    ∃ p ∈ firstDraws random C, p.machine = q.machine := by
  have hmem : q ∈ ofCountry C q.country := mem_ofCountry.mpr ⟨hq, rfl⟩
  rcases turn_taken random [] (ofCountry_mem_byCountry hq) hmem with h | h
  · obtain ⟨p, hp, hcountry⟩ := h
    exact .inl ⟨p, hp, (mem_ofCountry.mp hcountry).2⟩
  · exact .inr h

end FirstDraws

/-! ## The selection -/

section Selection

variable {C selected : List (StorageProviderState F)} {take count : Nat}

/-- As many providers as are wanted and as there are machines, on different machines. -/
structure IsSelection (C : List (StorageProviderState F)) (count : Nat)
    (selected : List (StorageProviderState F)) : Prop where
  length : selected.length = min count (C.map StorageProviderState.machine).toFinset.card
  machines : (selected.map StorageProviderState.machine).Nodup
  pubs : (selected.map StorageProviderState.pub).Nodup
  subset : selected ⊆ C

/-- The countries of some providers. -/
def countries (providers : List (StorageProviderState F)) : Finset String :=
  (providers.map StorageProviderState.country).toFinset

/-- No choice of as many candidates on different machines has more countries. -/
def MostCountries (C selected : List (StorageProviderState F)) : Prop :=
  ∀ X : List (StorageProviderState F), X ⊆ C → (X.map StorageProviderState.machine).Nodup →
    X.length = selected.length → (countries X).card ≤ (countries selected).card

section

omit [JsNumber F]

theorem length_le_machines (hsub : selected ⊆ C)
    (hnodup : (selected.map StorageProviderState.machine).Nodup) :
    selected.length ≤ (C.map StorageProviderState.machine).toFinset.card := by
  have hcard : (selected.map StorageProviderState.machine).toFinset.card = selected.length := by
    rw [List.toFinset_card_of_nodup hnodup, List.length_map]
  rw [← hcard]
  refine Finset.card_le_card fun machine hmem => ?_
  rw [List.mem_toFinset] at hmem ⊢
  exact List.map_subset _ hsub hmem

theorem machines_le_length
    (hall : ∀ p ∈ C, ∃ picked ∈ selected, picked.machine = p.machine) :
    (C.map StorageProviderState.machine).toFinset.card ≤ selected.length := by
  have hcard : (selected.map StorageProviderState.machine).toFinset.card ≤ selected.length :=
    Matching.card_left_le_length selected
  refine le_trans (Finset.card_le_card fun machine hmem => ?_) hcard
  obtain ⟨p, hp, rfl⟩ := List.mem_map.mp (List.mem_toFinset.mp hmem)
  obtain ⟨picked, hpicked, hsame⟩ := hall p hp
  exact List.mem_toFinset.mpr (List.mem_map.mpr ⟨picked, hpicked, hsame⟩)

theorem machines_le_candidates (C : List (StorageProviderState F)) :
    (C.map StorageProviderState.machine).toFinset.card ≤ C.length :=
  Matching.card_left_le_length C

theorem Exhausted.isSelection (h : Exhausted C (min count C.length) selected)
    (hpubs : (C.map StorageProviderState.pub).Nodup) : IsSelection C count selected where
  length := by
    have hupper := length_le_machines h.subset h.machines
    have hcandidates := machines_le_candidates C
    have hle := h.length_le
    rcases h.done with hfull | hall
    · omega
    · have hlower := machines_le_length hall
      omega
  machines := h.machines
  pubs := (List.nodup_map_iff_inj_on h.machines.of_map).mpr fun p hp q hq hsame =>
    List.inj_on_of_nodup_map hpubs (h.subset hp) (h.subset hq) hsame
  subset := h.subset

theorem countries_card_le (l : List (StorageProviderState F)) : (countries l).card ≤ l.length :=
  Matching.card_left_le_length l

theorem countries_card_eq (h : (selected.map StorageProviderState.country).Nodup) :
    (countries selected).card = selected.length := by
  rw [countries, List.toFinset_card_of_nodup h, List.length_map]

theorem mem_countries {country : String} :
    country ∈ countries selected ↔ ∃ p ∈ selected, p.country = country := by
  rw [countries, List.mem_toFinset, List.mem_map]

theorem mostCountries_of_nodup (h : (selected.map StorageProviderState.country).Nodup) :
    MostCountries C selected := by
  intro X hX hmachines hlength
  rw [countries_card_eq h, ← hlength]
  exact countries_card_le X

end

variable {random : Nat → F}

theorem countries_eq_of_front (h : Exhausted C take selected)
    (hfirst : firstDraws random C <+: selected) :
    countries selected = countries (firstDraws random C) := by
  obtain ⟨later, rfl⟩ := hfirst
  have hdisjoint := h.machines
  rw [List.map_append, List.nodup_append'] at hdisjoint
  ext country
  rw [mem_countries, mem_countries]
  constructor
  · intro hmem
    obtain ⟨p, hp, rfl⟩ := hmem
    rcases List.mem_append.mp hp with hp | hlater
    · exact ⟨p, hp, rfl⟩
    · rcases firstDraws_taken random (h.subset hp) with hserved | htaken
      · exact hserved
      · obtain ⟨picked, hpicked, hsame⟩ := htaken
        have hmem : p.machine ∈ (firstDraws random C).map StorageProviderState.machine :=
          List.mem_map.mpr ⟨picked, hpicked, hsame⟩
        exact absurd (List.mem_map_of_mem hlater) (hdisjoint.2.2 hmem)
  · intro hmem
    obtain ⟨p, hp, hcountry⟩ := hmem
    exact ⟨p, List.mem_append_left later hp, hcountry⟩

/-- When the first round does not fill all places, the countries are as many as possible if
and only if no exchange improves the first draws. -/
theorem mostCountries_iff_settled (h : Exhausted C take selected)
    (hlt : (firstDraws random C).length < take) (hfirst : firstDraws random C <+: selected) :
    MostCountries C selected ↔
      Matching.Settled StorageProviderState.country StorageProviderState.machine C
        (firstDraws random C) := by
  have hpairing := pairing_firstDraws random C
  have hcard : (countries selected).card = (firstDraws random C).length := by
    rw [countries_eq_of_front h hfirst, countries_card_eq hpairing.left]
  by_cases hmore : (firstDraws random C).length < selected.length
  · classical
    rw [Matching.settled_iff hpairing (firstDraws_subset random C) hmore
      (length_le_machines h.subset h.machines), MostCountries, hcard]
    rfl
  · -- the other rounds selected no one: all machines are drawn
    have heq : firstDraws random C = selected :=
      hfirst.eq_of_length_le (Nat.le_of_not_lt hmore)
    rw [heq] at hlt ⊢
    refine iff_of_true (mostCountries_of_nodup (heq ▸ hpairing.left)) fun q hq _ => ?_
    exact h.done.resolve_left hlt.ne q hq

theorem exists_rounds (random : Nat → F) (C : List (StorageProviderState F)) (count : Nat)
    (hpubs : (C.map StorageProviderState.pub).Nodup) :
    ∃ selected, (∀ fuel, count < fuel → selectAmong random C count fuel = some selected) ∧
      Exhausted C (min count C.length) selected ∧
      (firstDraws random C).take (min count C.length) <+: selected := by
  obtain ⟨selected, hrun, hdone, hfirst⟩ :=
    Selecting.Recorded.rounds random hpubs
      (fun group => subset_of_mem_byCountry)
      (fun p hp => ⟨_, ofCountry_mem_byCountry hp, mem_ofCountry.mpr ⟨hp, rfl⟩⟩)
      (min count C.length) (recorded_start C) (Nat.zero_add _)
  refine ⟨selected, fun fuel hfuel => ?_, hdone, hfirst⟩
  rw [selectAmong]
  split
  case isTrue hempty =>
    rw [List.isEmpty_iff] at hempty
    have hnil : selected = [] := List.subset_nil.mp (hempty ▸ hdone.subset)
    rw [hnil]
  case isFalse => exact hrun fuel (by omega)

theorem mostCountries_of_filled (h : Exhausted C take selected)
    (hfilled : take ≤ (firstDraws random C).length)
    (hfirst : (firstDraws random C).take take <+: selected) : MostCountries C selected := by
  have hlength : ((firstDraws random C).take take).length = take := by
    rw [List.length_take]
    exact Nat.min_eq_left hfilled
  have heq := hfirst.eq_of_length_le (h.length_le.trans hlength.ge)
  refine mostCountries_of_nodup ?_
  rw [← heq]
  exact (pairing_firstDraws random C).left.sublist ((List.take_sublist take _).map _)

theorem settled_of_all (hall : C.length ≤ (firstDraws random C).length) :
    Matching.Settled StorageProviderState.country StorageProviderState.machine C
      (firstDraws random C) := by
  intro q hq _
  have hsubperm := List.subperm_of_subset (pairing_firstDraws random C).nodup
    (firstDraws_subset random C)
  exact ⟨q, (hsubperm.perm_of_length_le hall).mem_iff.mpr hq, rfl⟩

/-- Selection ends, and selects as many providers on different machines as there can be.  Its
countries are as many as possible if and only if the first draws of the countries fill all
places, or no exchange improves them. -/
theorem selectAmong_mostCountries_iff (random : Nat → F) (C : List (StorageProviderState F))
    (count : Nat) (hpubs : (C.map StorageProviderState.pub).Nodup) :
    ∃ selected, (∀ fuel, count < fuel → selectAmong random C count fuel = some selected) ∧
      IsSelection C count selected ∧
      (MostCountries C selected ↔ count ≤ (firstDraws random C).length ∨
        Matching.Settled StorageProviderState.country StorageProviderState.machine C
          (firstDraws random C)) := by
  obtain ⟨selected, hrun, hdone, hfirst⟩ := exists_rounds random C count hpubs
  refine ⟨selected, hrun, hdone.isSelection hpubs, ?_⟩
  by_cases hfilled : min count C.length ≤ (firstDraws random C).length
  · refine iff_of_true (mostCountries_of_filled hdone hfilled hfirst) ?_
    rcases le_total count C.length with hcount | hcount
    · rw [Nat.min_eq_left hcount] at hfilled
      exact .inl hfilled
    · rw [Nat.min_eq_right hcount] at hfilled
      exact .inr (settled_of_all hfilled)
  · have hlt := Nat.lt_of_not_le hfilled
    rw [List.take_of_length_le hlt.le] at hfirst
    rw [mostCountries_iff_settled hdone hlt hfirst]
    exact (or_iff_right (by omega)).symm

end Selection

/-! ## The candidates of a ledger -/

section Candidates

variable {L : ProviderLedger F} {m : JsMap Hex (StorageProviderState F)}
  {p : StorageProviderState F}

/-- Every record is filed under its own key. -/
def FiledByPub (m : JsMap Hex (StorageProviderState F)) : Prop :=
  ∀ pub p, m.get? pub = some p → p.pub = pub

/-- The two tables of a provider ledger. -/
structure ProviderLedger.Filed (L : ProviderLedger F) : Prop where
  providers : FiledByPub L.providers
  discovered : FiledByPub L.discovered

section

omit [JsNumber F]

theorem filedByPub_empty : FiledByPub (JsMap.empty : JsMap Hex (StorageProviderState F)) := by
  intro pub p hget
  cases hget

theorem FiledByPub.set (h : FiledByPub m) {pub : Hex} (hp : p.pub = pub) :
    FiledByPub (m.set pub p) := by
  intro pub' p' hget
  rw [JsMap.get?_set] at hget
  split at hget
  case isTrue heq => rw [← Option.some.inj hget, hp, heq]
  case isFalse => exact h pub' p' hget

theorem FiledByPub.nodup (h : FiledByPub m) : (m.values.map StorageProviderState.pub).Nodup := by
  have heq : m.values.map StorageProviderState.pub = m.keys := by
    rw [JsMap.values, JsMap.keys, List.map_map]
    exact List.map_congr_left fun e he => h e.1 e.2 ((m.get?_eq_some_iff e.1 e.2).mpr he)
  rw [heq]
  exact m.nodup

theorem FiledByPub.foldl_set (h : FiledByPub m) {l : List (Hex × StorageProviderState F)}
    (hl : ∀ e ∈ l, e.2.pub = e.1) : FiledByPub (l.foldl (fun m e => m.set e.1 e.2) m) := by
  induction l generalizing m with
  | nil => exact h
  | cons e rest ih =>
    exact ih (h.set (hl e List.mem_cons_self)) fun e' he' => hl e' (List.mem_cons_of_mem e he')

theorem FiledByPub.of_mem (h : FiledByPub m) : ∀ e ∈ m.entries, e.2.pub = e.1 :=
  fun e he => h e.1 e.2 ((m.get?_eq_some_iff e.1 e.2).mpr he)

end

theorem ProviderLedger.Filed.nodup_allProviders (h : L.Filed) :
    (L.allProviders.map StorageProviderState.pub).Nodup := by
  have hmerged := (filedByPub_empty.foldl_set h.discovered.of_mem).foldl_set h.providers.of_mem
  rw [ProviderLedger.allProviders, ((List.mergeSort_perm _ _).map _).nodup_iff]
  exact hmerged.nodup.sublist (List.filter_sublist.map _)

theorem keepCandidate_cases (E : SelectionEnv) (L : ProviderLedger F)
    (kept : List (StorageProviderState F) × CustodyLiveness) (p : StorageProviderState F) :
    (keepCandidate E L kept p).1 = kept.1 ∨ (keepCandidate E L kept p).1 = kept.1 ++ [p] := by
  rw [keepCandidate]
  split
  case isTrue => exact .inl rfl
  case isFalse =>
    split
    case isTrue => exact .inr rfl
    case isFalse =>
      rw [ProviderLedger.keepLive]
      dsimp only
      split
      case isTrue => exact .inr rfl
      case isFalse => exact .inl rfl

theorem foldl_keepCandidate_sublist (E : SelectionEnv) (L : ProviderLedger F)
    (l : List (StorageProviderState F)) (kept : List (StorageProviderState F) × CustodyLiveness) :
    (l.foldl (keepCandidate E L) kept).1.Sublist (kept.1 ++ l) := by
  induction l generalizing kept with
  | nil =>
    rw [List.append_nil]
    exact List.Sublist.refl kept.1
  | cons p rest ih =>
    refine (ih (keepCandidate E L kept p)).trans ?_
    rcases keepCandidate_cases E L kept p with heq | heq
    · rw [heq]
      exact (List.Sublist.refl kept.1).append (List.sublist_cons_self p rest)
    · rw [heq, List.append_assoc]
      exact List.Sublist.refl _

theorem ProviderLedger.Filed.nodup_candidates (h : L.Filed) (E : SelectionEnv)
    (T : CustodyLiveness) :
    ((selectionCandidates E L T).1.map StorageProviderState.pub).Nodup :=
  h.nodup_allProviders.sublist
    ((foldl_keepCandidate_sublist E L L.allProviders ([], T)).map _)

theorem ProviderLedger.Filed.isSelection (h : L.Filed) (E : SelectionEnv) (T : CustodyLiveness)
    (random : Nat → F) (count : Nat) : ∃ selected,
      (∀ fuel, count < fuel → (selectProviders E L T random count fuel).1 = some selected) ∧
      IsSelection (selectionCandidates E L T).1 count selected := by
  have hpubs := h.nodup_candidates E T
  obtain ⟨selected, hrun, hdone, -⟩ :=
    exists_rounds random (selectionCandidates E L T).1 count hpubs
  exact ⟨selected, hrun, hdone.isSelection hpubs⟩

section

omit [JsNumber F]

theorem ProviderLedger.filed_new : (ProviderLedger.new : ProviderLedger F).Filed :=
  ⟨filedByPub_empty, filedByPub_empty⟩

theorem ProviderLedger.Filed.setDiscovered (h : L.Filed)
    (records : List (StorageProviderState F)) : (L.setDiscovered records).Filed where
  providers := h.providers
  discovered := by
    have hfold : ∀ m : JsMap Hex (StorageProviderState F), FiledByPub m →
        FiledByPub (records.foldl (fun m r => m.set r.pub r) m) := by
      induction records with
      | nil => exact fun m hm => hm
      | cons r rest ih => exact fun m hm => ih (m.set r.pub r) (hm.set rfl)
    exact hfold .empty filedByPub_empty

theorem ProviderLedger.Filed.writeTelemetry (h : L.Filed) (pub : Hex) (w : TelemetryWrite F) :
    (L.writeTelemetry pub w).Filed := by
  rw [ProviderLedger.writeTelemetry]
  split
  next p hget =>
    refine ⟨h.providers.set ?_, h.discovered⟩
    cases w <;> exact h.providers pub p hget
  next => exact h

end

theorem ProviderLedger.Filed.applySettle (h : L.Filed) (P : Primitives F)
    (block : BlockContent F) : (ProviderLedger.applySettle P L block).Filed := by
  rw [ProviderLedger.applySettle]
  split
  next =>
    refine ⟨?_, h.discovered⟩
    dsimp only
    split
    next p hget => exact h.providers.set (h.providers block.accountId p hget)
    next => exact h.providers
  next => exact h

theorem ProviderLedger.Filed.apply (h : L.Filed) (P : Primitives F) (block : BlockContent F) :
    (L.apply P block).Filed := by
  rw [ProviderLedger.apply]
  split
  next => exact ⟨h.providers.set rfl, h.discovered⟩
  next =>
    refine ⟨fun pub p hget => ?_, h.discovered⟩
    exact h.providers pub p (JsMap.get?_of_get?_delete hget).2
  next => exact h.applySettle P block
  next => exact h

/-! ## Runs of a provider ledger -/

/-- What a node writes into its provider ledger. -/
inductive LedgerWrite (F : Type) where
  | apply (block : BlockContent F)
  | setDiscovered (records : List (StorageProviderState F))
  | telemetry (pub : Hex) (w : TelemetryWrite F)
  /-- From `purgeAccount`. -/
  | purge (pub : Hex)
  | clear

def LedgerWrite.serve (P : Primitives F) (L : ProviderLedger F) : LedgerWrite F → ProviderLedger F
  | .apply block => L.apply P block
  | .setDiscovered records => L.setDiscovered records
  | .telemetry pub w => L.writeTelemetry pub w
  | .purge pub => { L with providers := L.providers.delete pub }
  | .clear => L.clear

theorem ProviderLedger.Filed.serve (h : L.Filed) (P : Primitives F) (write : LedgerWrite F) :
    (write.serve P L).Filed := by
  cases write with
  | apply block => exact h.apply P block
  | setDiscovered records => exact h.setDiscovered records
  | telemetry pub w => exact h.writeTelemetry pub w
  | purge pub => exact ⟨fun x p hget => h.providers x p (JsMap.get?_of_get?_delete hget).2,
      h.discovered⟩
  | clear => exact ⟨filedByPub_empty, filedByPub_empty⟩

/-- Whatever has been written into the ledger, and whatever the draws are, a selection ends, with
as many candidates as are wanted and as there are machines, on different machines. -/
theorem ProviderLedger.selectProviders_complete (P : Primitives F) (writes : List (LedgerWrite F))
    (E : SelectionEnv) (T : CustodyLiveness) (random : Nat → F) (count : Nat) :
    ∃ selected, (∀ fuel, count < fuel → (selectProviders E
        (Run.final (LedgerWrite.serve P) .new writes) T random count fuel).1 = some selected) ∧
      IsSelection (selectionCandidates E (Run.final (LedgerWrite.serve P) .new writes) T).1 count
        selected :=
  (Run.invariant_final (I := ProviderLedger.Filed) (C := fun _ _ => True)
    (fun _ write h _ => h.serve P write) ProviderLedger.filed_new
    (Run.stepsMeet_of_forall (fun _ _ => trivial) _ _)).isSelection E T random count

end Candidates

/-! ## A country that draws what another one needed -/

namespace Sample

/-- A provider with a machine and a country. -/
def standing (pub deviceId country : String) : StorageProviderState Rat where
  pub := pub
  deviceId := deviceId
  registeredAt := 0
  capacityGB := 10
  deviceClass := none
  declaredConcurrency := none
  lastActualStoredBytes := 0
  lastHeartbeat := 0
  heartbeatsLast24h := 0
  smokeAddr := none
  countryCode := some country
  avgLatencyMs := 0
  spotCheckPassRate := 1
  score := 1

/-- The machine `rack` answers under one key in each of two countries. -/
def sharedRack : List (StorageProviderState Rat) :=
  [standing "a1" "rack" "AT", standing "a2" "desk" "AT", standing "b1" "rack" "BE"]

end Sample

open Sample (sharedRack standing)

/-- One place is filled by the first country. -/
theorem selectAmong_sharedRack : ∃ selected,
    selectAmong (fun _ => (0 : Rat)) sharedRack 1 2 = some selected ∧
    MostCountries sharedRack selected := by
  obtain ⟨selected, hrun, -, hmost⟩ :=
    selectAmong_mostCountries_iff (fun _ => (0 : Rat)) sharedRack 1 (by decide)
  exact ⟨selected, hrun 2 (by decide), hmost.mpr (.inl (by decide +kernel))⟩

/-- Austria draws the rack, which leaves Belgium nothing: both copies stay in one country,
where the desk and the rack's Belgian key would be in two. -/
theorem shared_rack_blocks_country :
    selectAmong (fun _ => (0 : Rat)) sharedRack 2 3 =
      some [standing "a1" "rack" "AT", standing "a2" "desk" "AT"] ∧
    ¬ MostCountries sharedRack [standing "a1" "rack" "AT", standing "a2" "desk" "AT"] := by
  refine ⟨by decide +kernel, fun hmost => ?_⟩
  have hle := hmost [standing "a2" "desk" "AT", standing "b1" "rack" "BE"]
    (by simp [sharedRack]) (by decide) rfl
  exact absurd hle (by decide)

end NeuronWeb
