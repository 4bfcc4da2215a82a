/-
  Network/ShareRefresh: the repair of a recovery secret's redundancy
  (`planShareRefresh`, `orderRefreshTargets` and `refreshShareRedundancy` in
  `network/recovery-share.ts`).

  The secret is split so that any two shares of one split recover it. A refresh asks every relay
  which split its share is from, makes a new split for all relays that answered, and writes it
  first to the relays that do not hold the NEWEST split it was told of, then to those that do.
-/
import NeuronWeb.Foundation.Generations
import NeuronWeb.Foundation.Run

set_option autoImplicit false

namespace NeuronWeb.RecoveryShare

open Generations

variable {Base : Type}

/-! ## The relays -/

/-- What a relay stores for the account; `x` is missing from a full-secret record. -/
structure StoredShare where
  x : Option Nat
  ts : Nat
  deriving DecidableEq, Repr

abbrev Relays (Base : Type) := Base → Option StoredShare

/-- The split each relay's share is from. -/
def generation (relays : Relays Base) : Base → Option Nat := fun base => (relays base).map (·.ts)

/-- One relay's answer to "do you hold a share for this account?" -/
structure ShareStatus (Base : Type) where
  base : Base
  has : Bool
  x : Option Nat
  ts : Nat
  deriving DecidableEq, Repr

def shareStatus (relays : Relays Base) (base : Base) : ShareStatus Base :=
  match relays base with
  | some share => ⟨base, true, share.x, share.ts⟩
  | none => ⟨base, false, none, 0⟩

/-- One call of `refreshShareRedundancy`: the relays it asks, those of them that answer,
the clock, and the relays that would accept a share. -/
structure Refresh (Base : Type) where
  bases : List Base
  distinct : bases.Nodup
  answers : Base → Bool
  now : Nat
  accepts : Base → Bool

/-- Relays that do not answer are absent from the statuses, not counted as empty. -/
def fetchShareStatuses (relays : Relays Base) (r : Refresh Base) : List (ShareStatus Base) :=
  (r.bases.filter r.answers).map (shareStatus relays)

/-! ## The plan -/

structure RefreshPlan (Base : Type) where
  /-- Relays holding a share from the newest split. -/
  holders : List Base
  shouldRefresh : Bool
  reason : String
  deriving DecidableEq, Repr

def planShareRefresh (statuses : List (ShareStatus Base)) : RefreshPlan Base :=
  let reachable := statuses.map (·.base)
  let held := statuses.filter (·.has)
  let newestTs := held.foldl (fun m s => max m s.ts) 0
  let holders := (held.filter (·.ts == newestTs)).map (·.base)
  if reachable.length < 2 then
    ⟨holders, false, "fewer than 2 relays reachable — cannot maintain k=2"⟩
  else if reachable.length ≤ holders.length then
    ⟨holders, false, s!"already spread across {holders.length} custodian(s)"⟩
  else
    ⟨holders, true, s!"{holders.length} custodian(s) for {reachable.length} reachable relays"⟩

structure RefreshTargets (Base : Type) where
  nonHolders : List Base
  holders : List Base
  deriving DecidableEq, Repr

variable [DecidableEq Base]

def orderRefreshTargets (statuses : List (ShareStatus Base)) (plan : RefreshPlan Base) :
    RefreshTargets Base where
  nonHolders := (statuses.map (·.base)).filter fun b => !plan.holders.contains b
  holders := (statuses.map (·.base)).filter fun b => plan.holders.contains b

/-! ## The two phases -/

/-- The coordinates `shamirSplit` gives the shares of a split among `n`. -/
def shamirSplit (n : Nat) : Except String (List Nat) :=
  if n < 2 || 255 < n then .error "shamirSplit: n must be 2..255"
  else .ok ((List.range n).map (· + 1))

/-- How far the writes have come: the shares now, how many writes were accepted, and the
shares after each write so far. -/
structure Writing (Base : Type) where
  relays : Relays Base
  newGen : Nat
  seen : List (Relays Base)

/-- `write(base)`: store the share of `base`, which replaces the one it holds. -/
def write (r : Refresh Base) (shareFor : List (Base × Nat)) (w : Writing Base) (base : Base) :
    Writing Base :=
  if r.accepts base then
    let relays := Function.update w.relays base (some ⟨shareFor.lookup base, r.now⟩)
    ⟨relays, w.newGen + 1, w.seen ++ [relays]⟩
  else { w with seen := w.seen ++ [w.relays] }

structure RefreshResult where
  refreshed : Bool
  custodians : Nat
  reason : String
  deriving DecidableEq, Repr

/-- The two phases of the writes. -/
def writePhases (relays : Relays Base) (r : Refresh Base) (plan : RefreshPlan Base)
    (order : RefreshTargets Base) (shareFor : List (Base × Nat)) :
    RefreshResult × Writing Base :=
  -- phase 1: relays with nothing to lose
  let first := order.nonHolders.foldl (write r shareFor) ⟨relays, 0, []⟩
  if first.newGen = 0 then
    (⟨false, plan.holders.length, "no new custodian accepted a share (a relay that never "
      ++ "attested this account cannot hold one) — existing set left untouched"⟩, first)
  else
    -- phase 2: the current holders
    let second := order.holders.foldl (write r shareFor) first
    if second.newGen < 2 then
      (⟨false, second.newGen, s!"only {second.newGen} custodian(s) accepted — "
        ++ "account was already below threshold"⟩, second)
    else
      (⟨true, second.newGen, s!"re-split across {second.newGen} of "
        ++ s!"{(order.nonHolders ++ order.holders).length} relays"⟩, second)

def refreshShareRedundancy (relays : Relays Base) (r : Refresh Base) :
    Except String RefreshResult × Writing Base :=
  let statuses := fetchShareStatuses relays r
  let plan := planShareRefresh statuses
  if !plan.shouldRefresh then
    (.ok ⟨false, plan.holders.length, plan.reason⟩, ⟨relays, 0, []⟩)
  else
    let order := orderRefreshTargets statuses plan
    let targets := order.nonHolders ++ order.holders
    match shamirSplit targets.length with
    | .error e => (.error e, ⟨relays, 0, []⟩)
    | .ok shares =>
      let done := writePhases relays r plan order (targets.zip shares)
      (.ok done.1, done.2)

/-- The shares a refresh leaves behind. -/
def refresh (relays : Relays Base) (r : Refresh Base) : Relays Base :=
  (refreshShareRedundancy relays r).2.relays

/-- The shares at every moment of a refresh: before it and after each of its writes. -/
def moments (relays : Relays Base) (r : Refresh Base) : List (Relays Base) :=
  relays :: (refreshShareRedundancy relays r).2.seen

/-- The plan a refresh makes from the answers it gets. -/
def planOf (relays : Relays Base) (r : Refresh Base) : RefreshPlan Base :=
  planShareRefresh (fetchShareStatuses relays r)

/-- The order a refresh writes in. -/
def orderOf (relays : Relays Base) (r : Refresh Base) : RefreshTargets Base :=
  orderRefreshTargets (fetchShareStatuses relays r) (planOf relays r)

/-- The refresh comes to its writes: there is something to gain, and a split among that many
relays exists. -/
def writes (relays : Relays Base) (r : Refresh Base) : Bool :=
  (planOf relays r).shouldRefresh &&
    decide (((orderOf relays r).nonHolders ++ (orderOf relays r).holders).length ≤ 255)

/-- The relay a refresh converts first: the first to accept among those it counts as having
nothing to lose. -/
def firstConverted (relays : Relays Base) (r : Refresh Base) : Option Base :=
  if writes relays r then (orderOf relays r).nonHolders.find? r.accepts else none

/-! ## What the writes do -/

section Writes

variable {r : Refresh Base} {shareFor : List (Base × Nat)}

theorem write_generation (w : Writing Base) (base : Base) :
    generation (write r shareFor w base).relays =
      move r.accepts r.now (generation w.relays) base := by
  funext b
  cases haccepts : r.accepts base with
  | false => simp [write, haccepts]
  | true =>
    by_cases hb : b = base
    · simp [write, haccepts, generation, hb]
    · simp [write, haccepts, generation, hb]

theorem write_seen (w : Writing Base) (base : Base) :
    (write r shareFor w base).seen = w.seen ++ [(write r shareFor w base).relays] := by
  unfold write
  split <;> rfl

theorem writes_seen (w : Writing Base) (bases : List Base) :
    (bases.foldl (write r shareFor) w).seen.map generation =
      w.seen.map generation ++ passes r.accepts r.now (generation w.relays) bases := by
  induction bases generalizing w with
  | nil => simp [passes]
  | cons b bases ih =>
    rw [List.foldl_cons, ih, write_seen, write_generation, passes]
    simp [write_generation]

theorem writes_newGen (w : Writing Base) (bases : List Base) :
    (bases.foldl (write r shareFor) w).newGen = w.newGen + bases.countP r.accepts := by
  induction bases generalizing w with
  | nil => rfl
  | cons b bases ih =>
    rw [List.foldl_cons, ih]
    cases haccepts : r.accepts b with
    | false => simp [write, haccepts]
    | true =>
      simp only [write, haccepts, if_true, List.countP_cons]
      omega

/-- The relays the two phases ask, in order: the second phase is not begun before a relay
of the first has accepted. -/
def askedOf (r : Refresh Base) (order : RefreshTargets Base) : List Base :=
  if order.nonHolders.any r.accepts then order.nonHolders ++ order.holders
  else order.nonHolders

omit [DecidableEq Base] in
theorem find_askedOf (order : RefreshTargets Base) :
    (askedOf r order).find? r.accepts = order.nonHolders.find? r.accepts := by
  unfold askedOf
  split
  case isTrue hany =>
    obtain ⟨w, hw, haccepts⟩ := List.any_eq_true.mp hany
    rw [List.find?_append]
    cases hfind : order.nonHolders.find? r.accepts with
    | some v => rfl
    | none => exact absurd haccepts (List.find?_eq_none.mp hfind w hw)
  case isFalse => rfl

theorem writePhases_seen (relays : Relays Base) (plan : RefreshPlan Base)
    (order : RefreshTargets Base) :
    (writePhases relays r plan order shareFor).2.seen.map generation =
      passes r.accepts r.now (generation relays) (askedOf r order) := by
  have hfirst : (order.nonHolders.foldl (write r shareFor) ⟨relays, 0, []⟩).seen.map generation =
      passes r.accepts r.now (generation relays) order.nonHolders := by
    rw [writes_seen]
    rfl
  have hboth : (order.holders.foldl (write r shareFor)
      (order.nonHolders.foldl (write r shareFor) ⟨relays, 0, []⟩)).seen.map generation =
      passes r.accepts r.now (generation relays) (order.nonHolders ++ order.holders) := by
    rw [← List.foldl_append, writes_seen]
    rfl
  have hcount : (order.nonHolders.foldl (write r shareFor) ⟨relays, 0, []⟩).newGen = 0 ↔
      order.nonHolders.any r.accepts = false := by
    rw [writes_newGen, List.any_eq_false, Nat.zero_add, List.countP_eq_zero]
  unfold writePhases askedOf
  by_cases hnone : (order.nonHolders.foldl (write r shareFor) ⟨relays, 0, []⟩).newGen = 0
  · rw [if_pos hnone, hcount.mp hnone]
    exact hfirst
  · have hany : order.nonHolders.any r.accepts = true := by
      rw [← Bool.not_eq_false, ← hcount]
      exact hnone
    rw [if_neg hnone, if_pos hany, ← hboth]
    dsimp only
    split <;> rfl

theorem writes_settled {start : Relays Base} {w : Writing Base}
    (h : w.relays ∈ start :: w.seen) (bases : List Base) :
    (bases.foldl (write r shareFor) w).relays ∈
      start :: (bases.foldl (write r shareFor) w).seen := by
  induction bases generalizing w with
  | nil => exact h
  | cons b bases ih =>
    refine ih ?_
    rw [write_seen]
    simp

theorem writePhases_settled (relays : Relays Base) (plan : RefreshPlan Base)
    (order : RefreshTargets Base) :
    (writePhases relays r plan order shareFor).2.relays ∈
      relays :: (writePhases relays r plan order shareFor).2.seen := by
  have hfirst : (order.nonHolders.foldl (write r shareFor) ⟨relays, 0, []⟩).relays ∈
      relays :: (order.nonHolders.foldl (write r shareFor) ⟨relays, 0, []⟩).seen :=
    writes_settled List.mem_cons_self order.nonHolders
  have hsecond : (order.holders.foldl (write r shareFor)
      (order.nonHolders.foldl (write r shareFor) ⟨relays, 0, []⟩)).relays ∈
      relays :: (order.holders.foldl (write r shareFor)
        (order.nonHolders.foldl (write r shareFor) ⟨relays, 0, []⟩)).seen :=
    writes_settled hfirst order.holders
  unfold writePhases
  dsimp only
  split
  · exact hfirst
  · split
    · exact hsecond
    · exact hsecond

end Writes

/-! ## The order of one refresh -/

section Order

variable (relays : Relays Base) (r : Refresh Base)

omit [DecidableEq Base] in
theorem shareStatus_base : ((fun s : ShareStatus Base => s.base) ∘ shareStatus relays) = id := by
  funext b
  simp only [Function.comp_apply, shareStatus, id_eq]
  split <;> rfl

omit [DecidableEq Base] in
@[simp] theorem fetchShareStatuses_bases :
    (fetchShareStatuses relays r).map (·.base) = r.bases.filter r.answers := by
  rw [fetchShareStatuses, List.map_map, shareStatus_base, List.map_id]

theorem targets_perm :
    ((orderOf relays r).nonHolders ++ (orderOf relays r).holders).Perm
      (r.bases.filter r.answers) := by
  simp only [orderOf, orderRefreshTargets, fetchShareStatuses_bases]
  refine List.perm_append_comm.trans ?_
  exact List.filter_append_perm _ _

omit [DecidableEq Base] in
theorem two_le_of_shouldRefresh (h : (planOf relays r).shouldRefresh = true) :
    2 ≤ (r.bases.filter r.answers).length := by
  rw [← fetchShareStatuses_bases relays r]
  by_contra hlt
  have hshort : ((fetchShareStatuses relays r).map (·.base)).length < 2 := by omega
  simp only [planOf, planShareRefresh, if_pos hshort] at h
  cases h

/-- The relays a refresh asks to take a share, in order. -/
def asked : List Base := if writes relays r then askedOf r (orderOf relays r) else []

theorem asked_nodup : (asked relays r).Nodup := by
  have hall : ((orderOf relays r).nonHolders ++ (orderOf relays r).holders).Nodup :=
    (targets_perm relays r).nodup_iff.mpr (r.distinct.filter r.answers)
  unfold asked askedOf
  split
  · split
    · exact hall
    · exact (List.nodup_append.mp hall).1
  · exact List.nodup_nil

theorem find_asked : (asked relays r).find? r.accepts = firstConverted relays r := by
  unfold asked firstConverted
  split
  · exact find_askedOf (orderOf relays r)
  · rfl

theorem refreshShareRedundancy_eq : refreshShareRedundancy relays r =
    if !(planOf relays r).shouldRefresh then
      (.ok ⟨false, (planOf relays r).holders.length, (planOf relays r).reason⟩, ⟨relays, 0, []⟩)
    else
      match shamirSplit ((orderOf relays r).nonHolders ++ (orderOf relays r).holders).length with
      | .error e => (.error e, ⟨relays, 0, []⟩)
      | .ok shares =>
        let done := writePhases relays r (planOf relays r) (orderOf relays r)
          (((orderOf relays r).nonHolders ++ (orderOf relays r).holders).zip shares)
        (.ok done.1, done.2) := rfl

theorem moments_generation :
    (moments relays r).map generation =
      generation relays :: passes r.accepts r.now (generation relays) (asked relays r) := by
  suffices h : (refreshShareRedundancy relays r).2.seen.map generation =
      passes r.accepts r.now (generation relays) (asked relays r) by
    rw [moments, List.map_cons, h]
  have hlength := (targets_perm relays r).length_eq
  rw [refreshShareRedundancy_eq, asked, writes]
  cases hplan : (planOf relays r).shouldRefresh with
  | false => rfl
  | true =>
    have htwo := two_le_of_shouldRefresh relays r hplan
    by_cases hmany : ((orderOf relays r).nonHolders ++ (orderOf relays r).holders).length ≤ 255
    · have hsplit : ∀ n, 2 ≤ n → n ≤ 255 →
          shamirSplit n = .ok ((List.range n).map (· + 1)) := by
        intro n h2 h255
        simp [shamirSplit, Nat.not_lt.mpr h2, Nat.not_lt.mpr h255]
      rw [hsplit _ (by omega) hmany, decide_eq_true hmany]
      exact writePhases_seen relays (planOf relays r) (orderOf relays r)
    · have hsplit : ∀ n, 255 < n →
          shamirSplit n = .error "shamirSplit: n must be 2..255" := by
        intro n h255
        simp [shamirSplit, h255]
      rw [hsplit _ (by omega), decide_eq_false hmany]
      rfl

theorem refresh_mem_moments : refresh relays r ∈ moments relays r := by
  rw [refresh, moments, refreshShareRedundancy_eq]
  split
  · exact List.mem_cons_self
  · split
    · exact List.mem_cons_self
    · exact writePhases_settled relays (planOf relays r) (orderOf relays r)

end Order

/-! ## Runs of refreshes -/

/-- Every share a relay holds is from an earlier split. -/
def Newer (relays : Relays Base) (r : Refresh Base) : Prop :=
  ∀ base share, relays base = some share → share.ts < r.now

/-- The relay that a refresh converts first can be spared: besides it, two relays hold
shares of one split. -/
def SparesFirst (relays : Relays Base) (r : Refresh Base) : Prop :=
  ∀ base, firstConverted relays r = some base → Spares (generation relays) base

theorem moments_recoverable_iff {relays : Relays Base} {r : Refresh Base}
    (hstart : Recoverable (generation relays)) (hnewer : Newer relays r) :
    (∀ m ∈ moments relays r, Recoverable (generation m)) ↔ SparesFirst relays r := by
  have hfresh : ∀ base, generation relays base ≠ some r.now := by
    intro base hheld
    obtain ⟨share, hshare, hts⟩ := Option.map_eq_some_iff.mp hheld
    exact absurd hts (Nat.ne_of_lt (hnewer base share hshare))
  have hmap : (∀ m ∈ moments relays r, Recoverable (generation m)) ↔
      ∀ g ∈ (moments relays r).map generation, Recoverable g := List.forall_mem_map.symm
  rw [hmap, moments_generation, List.forall_mem_cons, and_iff_right hstart,
    passes_recoverable_iff hstart hfresh (asked_nodup relays r), find_asked, SparesFirst]

/-- The newest split the plan of a refresh sees. -/
def newestOf (relays : Relays Base) (r : Refresh Base) : Nat :=
  ((fetchShareStatuses relays r).filter (·.has)).foldl (fun m s => max m s.ts) 0

omit [DecidableEq Base] in
theorem planOf_holders (relays : Relays Base) (r : Refresh Base) :
    (planOf relays r).holders =
      (r.bases.filter r.answers).filter
        fun b => generation relays b == some (newestOf relays r) := by
  have hplan : (planOf relays r).holders =
      (((fetchShareStatuses relays r).filter (·.has)).filter
        (·.ts == newestOf relays r)).map (·.base) := by
    unfold planOf planShareRefresh
    dsimp only
    split
    · rfl
    · split
      · rfl
      · rfl
  have hstatus : ∀ b, ((shareStatus relays b).ts == newestOf relays r &&
      (shareStatus relays b).has) = (generation relays b == some (newestOf relays r)) := by
    intro b
    unfold shareStatus generation
    cases relays b with
    | none => simp
    | some share => simp
  rw [hplan, List.filter_filter, fetchShareStatuses, List.filter_map, List.map_map,
    shareStatus_base, List.map_id]
  exact List.filter_congr fun b _ => hstatus b

/-- When two of the relays that answer hold the newest split the plan sees, a refresh
spares whatever it converts first: it begins outside that split. -/
theorem sparesFirst_of_two_holders {relays : Relays Base} {r : Refresh Base}
    (h : 2 ≤ (planOf relays r).holders.length) : SparesFirst relays r := by
  have hnodup : (planOf relays r).holders.Nodup := by
    rw [planOf_holders]
    exact (r.distinct.filter r.answers).filter _
  have hmem : ∀ b, b ∈ (planOf relays r).holders ↔
      b ∈ r.bases.filter r.answers ∧ generation relays b = some (newestOf relays r) := by
    intro b
    rw [planOf_holders, List.mem_filter, beq_iff_eq]
  have hpair : Paired (generation relays) (newestOf relays r) := by
    match hholders : (planOf relays r).holders with
    | [] => simp [hholders] at h
    | [a] => simp [hholders] at h
    | a :: b :: rest =>
      rw [hholders] at hnodup hmem
      have hne : a ≠ b := fun heq =>
        (List.nodup_cons.mp hnodup).1 (heq ▸ List.mem_cons_self)
      exact ⟨a, b, hne, ((hmem a).mp (by simp)).2, ((hmem b).mp (by simp)).2⟩
  intro w hw
  apply hpair.spares
  intro hheld
  unfold firstConverted at hw
  split at hw
  · have hfound := List.mem_of_find?_eq_some hw
    simp only [orderOf, orderRefreshTargets, List.mem_filter,
      fetchShareStatuses_bases] at hfound
    have hholder : w ∈ (planOf relays r).holders :=
      (hmem w).mpr ⟨List.mem_filter.mpr hfound.1, hheld⟩
    rw [List.contains_iff_mem.mpr hholder] at hfound
    cases hfound.2
  · cases hw

/-- A sequence of refreshes keeps the account recoverable at every moment exactly when each
of them spares the relay it converts first. -/
theorem refreshes_recoverable_iff {relays : Relays Base} {runs : List (Refresh Base)}
    (hstart : Recoverable (generation relays)) (hnewer : Run.StepsMeet refresh Newer relays runs) :
    Run.EveryStep refresh
        (fun before r _ => ∀ m ∈ moments before r, Recoverable (generation m)) relays runs ↔
      Run.StepsMeet refresh SparesFirst relays runs :=
  Run.everyStep_iff_stepsMeet_of_kept (Q := fun relays => Recoverable (generation relays))
    (fun relays r _ _ hall => hall _ (refresh_mem_moments relays r))
    (fun _ _ hstart hnewer => moments_recoverable_iff hstart hnewer) hstart hnewer

/-! ## A second refresh after an aborted one -/

/-- Two relays hold the shares of one split; a third relay came up later. -/
def twoOfThree : Relays (Fin 3) := fun base => if base = 2 then none else some ⟨some (base + 1), 1⟩

/-- All three relays answer, and the relay `w` alone accepts a share. -/
def onlyAccepts (w : Fin 3) (now : Nat) : Refresh (Fin 3) where
  bases := [0, 1, 2]
  distinct := by decide
  answers := fun _ => true
  now := now
  accepts := fun base => base == w

/-- A refresh that reaches the new relay only, then one that reaches an old relay only: the
second counts the two old shares as having nothing to lose and overwrites one of them. -/
theorem refresh_strands_account : ¬ ∀ (relays : Relays (Fin 3)) (runs : List (Refresh (Fin 3))),
    Recoverable (generation relays) → Run.StepsMeet refresh Newer relays runs →
      Run.EveryStep refresh
        (fun before r _ => ∀ m ∈ moments before r, Recoverable (generation m)) relays runs := by
  intro hall
  have hstart : Recoverable (generation twoOfThree) := ⟨1, 0, 1, by decide, by decide, by decide⟩
  have hnewer : Run.StepsMeet refresh Newer twoOfThree [onlyAccepts 2 2, onlyAccepts 0 3] := by
    refine ⟨?_, ?_, trivial⟩
    · unfold Newer
      decide +kernel
    · unfold Newer
      decide +kernel
  obtain ⟨_, hsecond, _⟩ := hall twoOfThree _ hstart hnewer
  obtain ⟨t, a, b, hab, ha, hb⟩ := hsecond _ (refresh_mem_moments _ _)
  have hleft : ∀ a b, a ≠ b →
      generation (refresh (refresh twoOfThree (onlyAccepts 2 2)) (onlyAccepts 0 3)) a ≠
        generation (refresh (refresh twoOfThree (onlyAccepts 2 2)) (onlyAccepts 0 3)) b := by
    decide +kernel
  exact hleft a b hab (ha.trans hb.symm)

/-- The first of these refreshes alone does no harm. -/
theorem refreshes_recoverable_once :
    Run.EveryStep refresh
      (fun before r _ => ∀ m ∈ moments before r, Recoverable (generation m))
      twoOfThree [onlyAccepts 2 2] := by
  have hstart : Recoverable (generation twoOfThree) := ⟨1, 0, 1, by decide, by decide, by decide⟩
  have hnewer : Newer twoOfThree (onlyAccepts 2 2) := by
    unfold Newer
    decide +kernel
  have hspares : SparesFirst twoOfThree (onlyAccepts 2 2) :=
    sparesFirst_of_two_holders (by decide +kernel)
  have hruns : Run.StepsMeet refresh Newer twoOfThree [onlyAccepts 2 2] := ⟨hnewer, trivial⟩
  exact (refreshes_recoverable_iff hstart hruns).mpr ⟨hspares, trivial⟩

end NeuronWeb.RecoveryShare
