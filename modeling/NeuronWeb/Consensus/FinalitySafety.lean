/-
  Consensus/FinalitySafety: what holds of committee finality over any sequence of calls.

  Two relations read the groups: a block `Competes` in a group, and a block has `Won` it. One
  invariant, `Consistent`, ties them to the membership map and to the final and rejected sets: a
  block is final (rejected) only because its own group has a winner that is (is not) that block.
-/
import NeuronWeb.Foundation.Run
import NeuronWeb.Consensus.Finality
import NeuronWeb.Sample

set_option autoImplicit false

namespace NeuronWeb.CommitteeFinality

variable {F : Type}

/-! ## The invariant -/

/-- `h` is one of the competing blocks of the group under `key`. -/
def Competes (s : CommitteeFinality) (key : String) (h : Hex) : Prop :=
  ∃ g, s.groups.get? key = some g ∧ g.blocks.has h = true

/-- `f` is the block that decided the group under `key`. -/
def Won (s : CommitteeFinality) (key : String) (f : Hex) : Prop :=
  ∃ g, s.groups.get? key = some g ∧ g.final = some f

/-- The maps and sets of a committee agree with each other. -/
structure Consistent (s : CommitteeFinality) : Prop where
  groupOf_iff : ∀ h key, s.groupOf.get? h = some key ↔ Competes s key h
  hash_ne_empty : ∀ key h, Competes s key h → h ≠ ""
  winner : ∀ key f, Won s key f → Competes s key f ∧ s.finalBlocks.has f = true
  final_won : ∀ f, s.finalBlocks.has f = true → ∃ key, Won s key f
  rejected_lost : ∀ h, s.rejectedBlocks.has h = true →
    ∃ key f, Competes s key h ∧ Won s key f ∧ f ≠ h

theorem Won.unique {s : CommitteeFinality} {key : String} {f f' : Hex}
    (h : Won s key f) (h' : Won s key f') : f = f' := by
  obtain ⟨g, hg, hf⟩ := h
  obtain ⟨g', hg', hf'⟩ := h'
  rw [hg] at hg'
  cases hg'
  rw [hf] at hf'
  exact Option.some.inj hf'

namespace Consistent

variable {s : CommitteeFinality}

section

variable (hs : Consistent s)
include hs

theorem truthy_final_iff {key : String} {g : Group}
    (hg : s.groups.get? key = some g) : truthy g.final = true ↔ ∃ f, Won s key f := by
  rw [truthy_iff]
  constructor
  · rintro ⟨f, hf, _⟩
    exact ⟨f, g, hg, hf⟩
  · rintro ⟨f, hwon⟩
    have hne : f ≠ "" := hs.hash_ne_empty key f (hs.winner key f hwon).1
    obtain ⟨g', hg', hf⟩ := hwon
    rw [hg] at hg'
    cases hg'
    exact ⟨f, hf, hne⟩

theorem not_won_of_undecided {key : String} {g : Group}
    (hg : s.groups.get? key = some g) (hopen : truthy g.final = false) (f : Hex) :
    ¬ Won s key f := by
  intro hwon
  rw [(hs.truthy_final_iff hg).mpr ⟨f, hwon⟩] at hopen
  cases hopen

theorem won_of_final {f : Hex} {key : String}
    (hf : s.finalBlocks.has f = true) (hkey : s.groupOf.get? f = some key) : Won s key f := by
  obtain ⟨key', hwon⟩ := hs.final_won f hf
  have hkey' : s.groupOf.get? f = some key' :=
    (hs.groupOf_iff f key').mpr (hs.winner key' f hwon).1
  rw [hkey] at hkey'
  cases hkey'
  exact hwon

theorem final_unique {f h : Hex} {key : String}
    (hf : s.finalBlocks.has f = true) (hh : s.finalBlocks.has h = true)
    (hfkey : s.groupOf.get? f = some key) (hhkey : s.groupOf.get? h = some key) : f = h :=
  (hs.won_of_final hf hfkey).unique (hs.won_of_final hh hhkey)

theorem not_rejected_of_final {h : Hex}
    (hf : s.finalBlocks.has h = true) : s.rejectedBlocks.has h = false := by
  rw [Bool.eq_false_iff]
  intro hrejected
  obtain ⟨key, f, hmem, hwon, hne⟩ := hs.rejected_lost h hrejected
  have hkey : s.groupOf.get? h = some key := (hs.groupOf_iff h key).mpr hmem
  exact hne (hwon.unique (hs.won_of_final hf hkey))

theorem groupOf_of_final {f : Hex} (hf : s.finalBlocks.has f = true) :
    ∃ key, s.groupOf.get? f = some key := by
  obtain ⟨key, hwon⟩ := hs.final_won f hf
  exact ⟨key, (hs.groupOf_iff f key).mpr (hs.winner key f hwon).1⟩

theorem congr {s' : CommitteeFinality}
    (hgroupOf : s'.groupOf = s.groupOf) (hfinal : s'.finalBlocks = s.finalBlocks)
    (hrejected : s'.rejectedBlocks = s.rejectedBlocks)
    (hcompetes : ∀ key h, Competes s' key h ↔ Competes s key h)
    (hwon : ∀ key f, Won s' key f ↔ Won s key f) : Consistent s' where
  groupOf_iff h key := by rw [hgroupOf, hcompetes, hs.groupOf_iff]
  hash_ne_empty key h hmem := hs.hash_ne_empty key h ((hcompetes key h).mp hmem)
  winner key f hf := by
    rw [hcompetes, hfinal]
    exact hs.winner key f ((hwon key f).mp hf)
  final_won f hf := by
    rw [hfinal] at hf
    obtain ⟨key, hwins⟩ := hs.final_won f hf
    exact ⟨key, (hwon key f).mpr hwins⟩
  rejected_lost h hh := by
    rw [hrejected] at hh
    obtain ⟨key, f, hmem, hwins, hne⟩ := hs.rejected_lost h hh
    exact ⟨key, f, (hcompetes key h).mpr hmem, (hwon key f).mpr hwins, hne⟩

end

end Consistent

theorem consistent_new : Consistent new where
  groupOf_iff := by simp [new, Competes]
  hash_ne_empty := by simp [new, Competes]
  winner := by simp [new, Won]
  final_won := by simp [new]
  rejected_lost := by simp [new]

/-! ## Registration -/

theorem registerBlock_of_has {s : CommitteeFinality} {block : BlockRef}
    (h : s.groupOf.has block.hash = true) : s.registerBlock block = s := by
  simp [registerBlock, h]

theorem competes_registerBlock {s : CommitteeFinality} {block : BlockRef}
    (hnew : s.groupOf.has block.hash = false) (key : String) (h : Hex) :
    Competes (s.registerBlock block) key h ↔
      Competes s key h ∨ (key = block.key ∧ h = block.hash) := by
  unfold Competes registerBlock
  simp only [hnew, Bool.false_eq_true, if_false, JsMap.get?_set]
  by_cases hkey : block.key = key
  · subst hkey
    cases s.groups.get? block.key with
    | none =>
      simp only [Option.getD_none, if_true, Option.some.injEq, exists_eq_left', emptyGroup,
        JsSet.has_add, JsMap.has_empty, Bool.or_false, decide_eq_true_eq, reduceCtorEq,
        false_and, exists_false, false_or, true_and]
      exact eq_comm
    | some g =>
      simp only [Option.getD_some, if_true, Option.some.injEq, exists_eq_left',
        JsSet.has_add, Bool.or_eq_true, decide_eq_true_eq, true_and]
      rw [or_comm, @eq_comm _ h]
  · simp [hkey, Ne.symm hkey]

theorem won_registerBlock (s : CommitteeFinality) (block : BlockRef) (key : String) (f : Hex) :
    Won (s.registerBlock block) key f ↔ Won s key f := by
  cases hhas : s.groupOf.has block.hash with
  | true => rw [registerBlock_of_has hhas]
  | false =>
    unfold Won registerBlock
    simp only [hhas, Bool.false_eq_true, if_false, JsMap.get?_set]
    by_cases hkey : block.key = key
    · subst hkey
      cases s.groups.get? block.key with
      | none => simp [emptyGroup]
      | some g => simp
    · simp [hkey]

@[simp] theorem finalBlocks_registerBlock (s : CommitteeFinality) (block : BlockRef) :
    (s.registerBlock block).finalBlocks = s.finalBlocks := by
  unfold registerBlock
  split <;> rfl

@[simp] theorem rejectedBlocks_registerBlock (s : CommitteeFinality) (block : BlockRef) :
    (s.registerBlock block).rejectedBlocks = s.rejectedBlocks := by
  unfold registerBlock
  split <;> rfl

theorem groupOf_registerBlock {s : CommitteeFinality} {block : BlockRef}
    (hnew : s.groupOf.has block.hash = false) :
    (s.registerBlock block).groupOf = s.groupOf.set block.hash block.key := by
  simp [registerBlock, hnew]

theorem Consistent.registerBlock {s : CommitteeFinality} (hs : Consistent s)
    (block : BlockRef) : Consistent (s.registerBlock block) := by
  cases hhas : s.groupOf.has block.hash with
  | true => rwa [registerBlock_of_has hhas]
  | false =>
    have hfresh : ∀ key, ¬ Competes s key block.hash := by
      intro key hmem
      rw [JsMap.has_eq_false_iff] at hhas
      rw [(hs.groupOf_iff block.hash key).mpr hmem] at hhas
      cases hhas
    constructor
    case groupOf_iff =>
      intro h key
      rw [groupOf_registerBlock hhas, competes_registerBlock hhas, JsMap.get?_set]
      by_cases hh : block.hash = h
      · subst hh
        simp [hfresh, eq_comm]
      · simp [hh, Ne.symm hh, hs.groupOf_iff]
    case hash_ne_empty =>
      intro key h hmem
      rcases (competes_registerBlock hhas key h).mp hmem with hold | ⟨_, rfl⟩
      · exact hs.hash_ne_empty key h hold
      · exact block.hash_ne_empty
    case winner =>
      intro key f hwon
      rw [won_registerBlock] at hwon
      obtain ⟨hmem, hfinal⟩ := hs.winner key f hwon
      exact ⟨(competes_registerBlock hhas key f).mpr (.inl hmem), by simpa using hfinal⟩
    case final_won =>
      intro f hf
      rw [finalBlocks_registerBlock] at hf
      obtain ⟨key, hwon⟩ := hs.final_won f hf
      exact ⟨key, (won_registerBlock s block key f).mpr hwon⟩
    case rejected_lost =>
      intro h hh
      rw [rejectedBlocks_registerBlock] at hh
      obtain ⟨key, f, hmem, hwon, hne⟩ := hs.rejected_lost h hh
      exact ⟨key, f, (competes_registerBlock hhas key h).mpr (.inl hmem),
        (won_registerBlock s block key f).mpr hwon, hne⟩

/-! ## Votes -/

/-- The committee after one more counted vote, before the quorum test. -/
def counted (s : CommitteeFinality) (key : String) (g : Group) (v : CommitteeVote)
    (seats : Nat) : CommitteeFinality :=
  { s with
    groups := s.groups.set key (countVote g v seats)
    groupEpoch := s.groupEpoch.set key (max ((s.groupEpoch.get? key).getD v.epoch) v.epoch) }

theorem tally_cases [JsNumber F] (params : CommitteeParams F) (s : CommitteeFinality)
    (key : String) (g : Group) (v : CommitteeVote) (seats : Nat) :
    (((countVote g v seats).seatsByBlock.get? v.blockHash).getD 0 < seatQuorum params ∧
        tally params s key g v seats = (counted s key g v seats, { accepted := true })) ∨
      (seatQuorum params ≤ ((countVote g v seats).seatsByBlock.get? v.blockHash).getD 0 ∧
        (tally params s key g v seats).1 =
          (finalize (counted s key g v seats) key (countVote g v seats) v.blockHash).1) := by
  unfold tally
  simp only
  split
  · rename_i hquorum
    exact .inr ⟨hquorum, rfl⟩
  · rename_i hquorum
    exact .inl ⟨by omega, rfl⟩

theorem competes_counted {s : CommitteeFinality} {key : String} {g : Group}
    (hg : s.groups.get? key = some g) (v : CommitteeVote) (seats : Nat) (key' : String)
    (h : Hex) : Competes (counted s key g v seats) key' h ↔ Competes s key' h := by
  unfold Competes counted
  rw [JsMap.get?_set]
  by_cases hkey : key = key'
  · subst hkey
    simp [hg, countVote]
  · simp [hkey]

theorem won_counted {s : CommitteeFinality} {key : String} {g : Group}
    (hg : s.groups.get? key = some g) (v : CommitteeVote) (seats : Nat) (key' : String)
    (f : Hex) : Won (counted s key g v seats) key' f ↔ Won s key' f := by
  unfold Won counted
  rw [JsMap.get?_set]
  by_cases hkey : key = key'
  · subst hkey
    simp [hg, countVote]
  · simp [hkey]

theorem groups_counted_self (s : CommitteeFinality) (key : String) (g : Group)
    (v : CommitteeVote) (seats : Nat) :
    (counted s key g v seats).groups.get? key = some (countVote g v seats) :=
  JsMap.get?_set_self _ _ _

variable {s : CommitteeFinality}

theorem competes_finalize {key : String} {g : Group}
    (hg : s.groups.get? key = some g) (f : Hex) (key' : String) (h : Hex) :
    Competes (finalize s key g f).1 key' h ↔ Competes s key' h := by
  unfold Competes finalize
  simp only [JsMap.get?_set]
  by_cases hkey : key = key'
  · subst hkey
    simp [hg]
  · simp [hkey]

theorem won_finalize {key : String} {g : Group}
    (hopen : ∀ f', ¬ Won s key f') (f : Hex) (key' : String) (f' : Hex) :
    Won (finalize s key g f).1 key' f' ↔ Won s key' f' ∨ (key' = key ∧ f' = f) := by
  by_cases hkey : key = key'
  · subst hkey
    have hnot := hopen f'
    unfold finalize
    simp only [Won, JsMap.get?_set, if_true, Option.some.injEq, exists_eq_left'] at hnot ⊢
    constructor
    · intro h
      exact .inr ⟨trivial, h.symm⟩
    · rintro (h | ⟨_, rfl⟩)
      · exact absurd h hnot
      · rfl
  · unfold Won finalize
    simp [JsMap.get?_set, hkey, Ne.symm hkey]

theorem rejectedBlocks_finalize {key : String} {g : Group}
    (hg : s.groups.get? key = some g) (f h : Hex) :
    (finalize s key g f).1.rejectedBlocks.has h = true ↔
      (Competes s key h ∧ h ≠ f) ∨ s.rejectedBlocks.has h = true := by
  unfold finalize Competes
  simp [JsSet.has_addAll, hg, JsSet.has_iff_mem_keys g.blocks]

theorem Consistent.finalize (hs : Consistent s) {key : String}
    {g : Group} (hg : s.groups.get? key = some g) (hopen : ∀ f', ¬ Won s key f') {f : Hex}
    (hf : Competes s key f) : Consistent (finalize s key g f).1 := by
  have hcompetes := competes_finalize hg f
  have hwon := won_finalize (g := g) hopen f
  have hfinal : ∀ h, (CommitteeFinality.finalize s key g f).1.finalBlocks.has h = true ↔
      f = h ∨ s.finalBlocks.has h = true := by
    intro h
    simp [CommitteeFinality.finalize, JsSet.has_add]
  constructor
  case groupOf_iff =>
    intro h key'
    rw [hcompetes]
    exact hs.groupOf_iff h key'
  case hash_ne_empty =>
    intro key' h hmem
    exact hs.hash_ne_empty key' h ((hcompetes key' h).mp hmem)
  case winner =>
    intro key' f' hwins
    rw [hcompetes, hfinal]
    rcases (hwon key' f').mp hwins with hold | ⟨rfl, rfl⟩
    · obtain ⟨hmem, hdone⟩ := hs.winner key' f' hold
      exact ⟨hmem, .inr hdone⟩
    · exact ⟨hf, .inl rfl⟩
  case final_won =>
    intro h hh
    rcases (hfinal h).mp hh with rfl | hold
    · exact ⟨key, (hwon key f).mpr (.inr ⟨rfl, rfl⟩)⟩
    · obtain ⟨key', hwins⟩ := hs.final_won h hold
      exact ⟨key', (hwon key' h).mpr (.inl hwins)⟩
  case rejected_lost =>
    intro h hh
    rcases (rejectedBlocks_finalize hg f h).mp hh with ⟨hmem, hne⟩ | hold
    · exact ⟨key, f, (hcompetes key h).mpr hmem, (hwon key f).mpr (.inr ⟨rfl, rfl⟩), hne.symm⟩
    · obtain ⟨key', f', hmem, hwins, hne⟩ := hs.rejected_lost h hold
      exact ⟨key', f', (hcompetes key' h).mpr hmem, (hwon key' f').mpr (.inl hwins), hne⟩

section Votes

variable [JsNumber F] {P : Primitives F} {params : CommitteeParams F}

theorem Consistent.applyVote {s : CommitteeFinality} (hs : Consistent s) (P : Primitives F)
    (params : CommitteeParams F) (ctx : VoteContext F) (v : CommitteeVote) :
    Consistent (CommitteeFinality.applyVote P params ctx s v).1 := by
  rcases applyVote_cases P params ctx s v with
    ⟨⟨equivocs, heq⟩, _⟩ | ⟨key, g, hcounted, heq⟩
  · rw [heq]
    exact hs.congr rfl rfl rfl (fun _ _ => Iff.rfl) (fun _ _ => Iff.rfl)
  · have hcompetes := competes_counted hcounted.group v v.seats
    have hwon := won_counted hcounted.group v v.seats
    have hs' : Consistent (counted s key g v v.seats) := hs.congr rfl rfl rfl hcompetes hwon
    rw [heq]
    rcases tally_cases params s key g v v.seats with ⟨_, h⟩ | ⟨_, h⟩
    · rw [h]
      exact hs'
    · rw [h]
      refine hs'.finalize (groups_counted_self s key g v v.seats) (fun f' hf' => ?_) ?_
      · exact hs.not_won_of_undecided hcounted.group hcounted.undecided f'
          ((hwon key f').mp hf')
      · exact (hcompetes key _).mpr ((hs.groupOf_iff v.blockHash key).mp hcounted.known)

theorem Consistent.applyVote_isSome {s : CommitteeFinality} (hs : Consistent s)
    (ctx : VoteContext F) (v : CommitteeVote) :
    (CommitteeFinality.applyVote P params ctx s v).2.isSome := by
  unfold CommitteeFinality.applyVote
  cases hknown : s.groupOf.get? v.blockHash with
  | none => rfl
  | some key =>
      obtain ⟨g, hg, _⟩ := (hs.groupOf_iff v.blockHash key).mp hknown
      simp only [hg]
      split
      · rfl
      · split
        · rfl
        · split
          · split <;> rfl
          · rfl

end Votes

/-! ## Pruning -/

theorem competes_dropGroup (s : CommitteeFinality) (key : String) (g : Group)
    (key' : String) (h : Hex) :
    Competes (s.dropGroup key g) key' h ↔ key' ≠ key ∧ Competes s key' h := by
  unfold Competes dropGroup
  simp only [JsMap.get?_delete]
  by_cases hkey : key = key'
  · simp [hkey]
  · simp [hkey, Ne.symm hkey]

theorem won_dropGroup (s : CommitteeFinality) (key : String) (g : Group)
    (key' : String) (f : Hex) :
    Won (s.dropGroup key g) key' f ↔ key' ≠ key ∧ Won s key' f := by
  unfold Won dropGroup
  simp only [JsMap.get?_delete]
  by_cases hkey : key = key'
  · simp [hkey]
  · simp [hkey, Ne.symm hkey]

variable {s : CommitteeFinality}

theorem Consistent.dropGroup (hs : Consistent s) {key : String}
    {g : Group} (hg : s.groups.get? key = some g) (hopen : truthy g.final = false) :
    Consistent (s.dropGroup key g) := by
  have hnot := hs.not_won_of_undecided hg hopen
  have hblocks : ∀ h, h ∈ g.blocks.keys ↔ Competes s key h := by
    intro h
    rw [← JsSet.has_iff_mem_keys]
    simp [Competes, hg]
  have hkept : ∀ key' f, Won s key' f → Won (s.dropGroup key g) key' f := by
    intro key' f hwon
    refine (won_dropGroup s key g key' f).mpr ⟨?_, hwon⟩
    rintro rfl
    exact hnot f hwon
  constructor
  case groupOf_iff =>
    intro h key'
    rw [competes_dropGroup, ← hs.groupOf_iff]
    simp only [CommitteeFinality.dropGroup, JsMap.get?_deleteAll, hblocks, ← hs.groupOf_iff]
    cases s.groupOf.get? h with
    | none => simp
    | some key₀ =>
      by_cases hkey : key₀ = key
      · simp [hkey, eq_comm]
      · simp only [Option.some.injEq, hkey, if_false]
        constructor
        · rintro rfl
          exact ⟨hkey, rfl⟩
        · exact fun h => h.2
  case hash_ne_empty =>
    intro key' h hmem
    exact hs.hash_ne_empty key' h ((competes_dropGroup s key g key' h).mp hmem).2
  case winner =>
    intro key' f hwon
    obtain ⟨hne, hold⟩ := (won_dropGroup s key g key' f).mp hwon
    obtain ⟨hmem, hdone⟩ := hs.winner key' f hold
    exact ⟨(competes_dropGroup s key g key' f).mpr ⟨hne, hmem⟩, hdone⟩
  case final_won =>
    intro f hf
    obtain ⟨key', hwon⟩ := hs.final_won f hf
    exact ⟨key', hkept key' f hwon⟩
  case rejected_lost =>
    intro h hh
    obtain ⟨key', f, hmem, hwon, hne⟩ := hs.rejected_lost h hh
    have hwon' := hkept key' f hwon
    exact ⟨key', f, (competes_dropGroup s key g key' h).mpr
      ⟨((won_dropGroup s key g key' f).mp hwon').1, hmem⟩, hwon', hne⟩

/-- Pruning drops stored undecided groups one after the other: what survives every such
drop survives `pruneStale`. -/
theorem pruneStale_induction {I : CommitteeFinality → Prop}
    (hdrop : ∀ s key g, I s → s.groups.get? key = some g → truthy g.final = false →
      I (s.dropGroup key g)) (hs : I s) (currentEpoch retainEpochs : Int) :
    I (s.pruneStale currentEpoch retainEpochs).1 := by
  -- the entries still to visit are stored, since only visited keys have been dropped
  have hloop : ∀ (rest : List (String × Group)) (s : CommitteeFinality) (n : Nat), I s →
      (rest.map Prod.fst).Nodup → (∀ e ∈ rest, s.groups.get? e.1 = some e.2) →
      I (rest.foldl (pruneGroup currentEpoch retainEpochs) (s, n)).1 := by
    intro rest
    induction rest with
    | nil => intro s n hs _ _; exact hs
    | cons e rest ih =>
      intro s n hs hnodup hstored
      obtain ⟨hfresh, hnodup⟩ := List.nodup_cons.mp hnodup
      have hhere := hstored e List.mem_cons_self
      have hrest := fun e' he' => hstored e' (List.mem_cons_of_mem e he')
      rw [List.foldl_cons]
      cases hstale : s.stale currentEpoch retainEpochs e.1 e.2 with
      | false =>
        have hround : pruneGroup currentEpoch retainEpochs (s, n) e = (s, n) := by
          simp [pruneGroup, hstale]
        rw [hround]
        exact ih s n hs hnodup hrest
      | true =>
        have hopen : truthy e.2.final = false := by
          simp only [stale, Bool.and_eq_true, Bool.not_eq_true'] at hstale
          exact hstale.1
        have hround : pruneGroup currentEpoch retainEpochs (s, n) e =
            (s.dropGroup e.1 e.2, n + 1) := by simp [pruneGroup, hstale]
        rw [hround]
        refine ih _ _ (hdrop s e.1 e.2 hs hhere hopen) hnodup fun e' he' => ?_
        have hne : e.1 ≠ e'.1 := fun h =>
          hfresh (h ▸ List.mem_map_of_mem (f := Prod.fst) he')
        simp only [CommitteeFinality.dropGroup, JsMap.get?_delete, hne, if_false]
        exact hrest e' he'
  exact hloop s.groups.entries s 0 hs s.groups.nodup fun e he =>
    (JsMap.get?_eq_some_iff _ _ _).mpr he

theorem Consistent.pruneStale (hs : Consistent s) (currentEpoch retainEpochs : Int) :
    Consistent (s.pruneStale currentEpoch retainEpochs).1 :=
  pruneStale_induction (fun _ _ _ h hg hopen => h.dropGroup hg hopen) hs currentEpoch
    retainEpochs

theorem equivocs_pruneStale (s : CommitteeFinality) (currentEpoch retainEpochs : Int) :
    (s.pruneStale currentEpoch retainEpochs).1.equivocs = s.equivocs :=
  pruneStale_induction (I := fun s' => s'.equivocs = s.equivocs) (fun _ _ _ h _ _ => h) rfl
    currentEpoch retainEpochs

/-! ## Runs -/

section Runs

variable [JsNumber F] (P : Primitives F) (params : CommitteeParams F)

variable {s : CommitteeFinality}

theorem Consistent.step (hs : Consistent s) (c : Call F) : Consistent (step P params s c) := by
  cases c with
  | registerBlock block => exact hs.registerBlock block
  | applyVote ctx v => exact hs.applyVote P params ctx v
  | pruneStale currentEpoch retainEpochs => exact hs.pruneStale currentEpoch retainEpochs

theorem consistent_of_reachable (h : Run.Reachable (step P params) new s) : Consistent s :=
  Run.invariant_reachable consistent_new (fun _ c hs => hs.step P params c) h

theorem final_step {f : Hex} (hf : s.finalBlocks.has f = true)
    (c : Call F) : (step P params s c).finalBlocks.has f = true := by
  cases c with
  | registerBlock block => simpa [step] using hf
  | applyVote ctx v =>
    rcases applyVote_cases P params ctx s v with
      ⟨⟨equivocs, heq⟩, _⟩ | ⟨key, g, _, heq⟩
    · simpa [step, heq] using hf
    · rcases tally_cases params s key g v v.seats with ⟨_, h⟩ | ⟨_, h⟩
      · simpa [step, heq, h, counted] using hf
      · simpa [step, heq, h, finalize, counted, JsSet.has_add] using Or.inr hf
  | pruneStale currentEpoch retainEpochs =>
    exact pruneStale_induction (I := fun s => s.finalBlocks.has f = true)
      (fun _ _ _ h _ _ => h) hf currentEpoch retainEpochs

theorem final_of_run {f : Hex} (hf : s.finalBlocks.has f = true) (calls : List (Call F)) :
    (Run.final (step P params) s calls).finalBlocks.has f = true :=
  Run.invariant_final (I := fun s => s.finalBlocks.has f = true) (C := fun _ _ => True)
    (fun _ c h _ => final_step P params h c) hf
    (Run.stepsMeet_of_forall (fun _ _ => trivial) s calls)

/-- Finality is permanent and exclusive.  After any sequence of calls, the final blocks
of one `(accountId, previousHash)` group are one block, every final block is in a group,
no block is both final and rejected, and no later call takes finality back. -/
theorem final_permanent_exclusive (calls : List (Call F)) :
    let s := Run.final (step P params) new calls
    (∀ accountId previousHash f h, s.isFinal f = true → s.isFinal h = true →
      s.groupOf.get? f = some (groupKey accountId previousHash) →
      s.groupOf.get? h = some (groupKey accountId previousHash) → f = h) ∧
    (∀ f, s.isFinal f = true → ∃ key, s.groupOf.get? f = some key) ∧
    (∀ h, s.isFinal h = true → s.rejectedBlocks.has h = false) ∧
    (∀ f, s.isFinal f = true → ∀ later,
      (Run.final (step P params) s later).isFinal f = true ∧
      (Run.final (step P params) s later).status f = .final) := by
  intro s
  have hs : Consistent s := consistent_of_reachable P params ⟨calls, rfl⟩
  refine ⟨fun accountId previousHash f h hf hh hfkey hhkey =>
      hs.final_unique hf hh hfkey hhkey,
    fun f hf => hs.groupOf_of_final hf, fun h hh => hs.not_rejected_of_final hh,
    fun f hf later => ?_⟩
  have hlater := final_of_run P params hf later
  exact ⟨hlater, by simp [status, hlater]⟩

/-! ## The losers of a decided group -/

/-- Every block that competes with a final one is rejected. -/
def LosersRejected (s : CommitteeFinality) : Prop :=
  ∀ key f h, s.groupOf.get? f = some key → s.groupOf.get? h = some key →
    s.isFinal f = true → h ≠ f → s.status h = .rejected

/-- The call does not register a new block in a group that is already decided. -/
def NoLateSibling (s : CommitteeFinality) : Call F → Prop
  | .registerBlock block =>
    s.groupOf.has block.hash = true ∨
      ∀ g, s.groups.get? block.key = some g → truthy g.final = false
  | _ => True

variable {s : CommitteeFinality}

theorem losersRejected_iff (hs : Consistent s) :
    LosersRejected s ↔
      ∀ key f h, Won s key f → Competes s key h → h ≠ f → s.rejectedBlocks.has h = true := by
  constructor
  · intro hall key f h hwon hmem hne
    obtain ⟨hcompetes, hfinal⟩ := hs.winner key f hwon
    have hstatus := hall key f h ((hs.groupOf_iff f key).mpr hcompetes)
      ((hs.groupOf_iff h key).mpr hmem) hfinal hne
    unfold status at hstatus
    split at hstatus
    · cases hstatus
    · split at hstatus
      · assumption
      · split at hstatus <;> cases hstatus
  · intro hall key f h hfkey hhkey hfinal hne
    have hwon := hs.won_of_final hfinal hfkey
    have hrejected := hall key f h hwon ((hs.groupOf_iff h key).mp hhkey) hne
    have hnot : s.finalBlocks.has h = false := by
      rw [Bool.eq_false_iff]
      intro hh
      rw [hs.not_rejected_of_final hh] at hrejected
      cases hrejected
    simp [status, hnot, hrejected]

/-- Votes and pruning keep the losers rejected: the block that wins rejects the others. -/
theorem losersRejected_applyVote (hs : Consistent s)
    (hlosers : LosersRejected s) (ctx : VoteContext F) (v : CommitteeVote) :
    LosersRejected (applyVote P params ctx s v).1 := by
  have hs' := hs.applyVote P params ctx v
  rw [losersRejected_iff hs] at hlosers
  rw [losersRejected_iff hs']
  rcases applyVote_cases P params ctx s v with
    ⟨⟨equivocs, heq⟩, _⟩ | ⟨key, g, hcounted, heq⟩
  · rw [heq]
    exact hlosers
  · have hopen := hs.not_won_of_undecided hcounted.group hcounted.undecided
    have hstored := groups_counted_self s key g v v.seats
    have hmembers := competes_counted hcounted.group v v.seats
    have hgroups := won_counted hcounted.group v v.seats
    rw [heq]
    rcases tally_cases params s key g v v.seats with ⟨_, h⟩ | ⟨_, h⟩
    · rw [h]
      intro key' f h' hwon hmem hne
      exact hlosers key' f h' ((hgroups key' f).mp hwon) ((hmembers key' h').mp hmem) hne
    · rw [h]
      intro key' f h' hwon hmem hne
      rw [rejectedBlocks_finalize hstored]
      rw [competes_finalize hstored] at hmem
      have hopen' : ∀ f', ¬ Won (counted s key g v v.seats) key f' := fun f' hf' =>
        hopen f' ((hgroups key f').mp hf')
      rcases (won_finalize hopen' v.blockHash key' f).mp hwon with hold | ⟨rfl, rfl⟩
      · exact .inr (hlosers key' f h' ((hgroups key' f).mp hold)
          ((hmembers key' h').mp hmem) hne)
      · exact .inl ⟨hmem, hne⟩

theorem losersRejected_pruneStale (hs : Consistent s)
    (hlosers : LosersRejected s) (currentEpoch retainEpochs : Int) :
    LosersRejected (s.pruneStale currentEpoch retainEpochs).1 := by
  refine (pruneStale_induction (I := fun s => Consistent s ∧ LosersRejected s) ?_
    ⟨hs, hlosers⟩ currentEpoch retainEpochs).2
  rintro s key g ⟨hs, hlosers⟩ hg hopen
  have hs' := hs.dropGroup hg hopen
  refine ⟨hs', (losersRejected_iff hs').mpr fun key' f h hwon hmem hne => ?_⟩
  exact (losersRejected_iff hs).mp hlosers key' f h ((won_dropGroup s key g key' f).mp hwon).2
    ((competes_dropGroup s key g key' h).mp hmem).2 hne

omit [JsNumber F] in
/-- A registration keeps the losers rejected exactly when it is not a late sibling. -/
theorem losersRejected_registerBlock_iff (hs : Consistent s)
    (hlosers : LosersRejected s) (block : BlockRef) :
    LosersRejected (s.registerBlock block) ↔
      NoLateSibling (F := F) s (.registerBlock block) := by
  cases hhas : s.groupOf.has block.hash with
  | true =>
    rw [registerBlock_of_has hhas]
    simp [NoLateSibling, hhas, hlosers]
  | false =>
    have hs' := hs.registerBlock block
    rw [losersRejected_iff hs] at hlosers
    rw [losersRejected_iff hs']
    have hnew : ∀ key, ¬ Competes s key block.hash := by
      intro key hmem
      rw [JsMap.has_eq_false_iff] at hhas
      rw [(hs.groupOf_iff block.hash key).mpr hmem] at hhas
      cases hhas
    simp only [NoLateSibling, hhas, Bool.false_eq_true, false_or, won_registerBlock,
      competes_registerBlock hhas, rejectedBlocks_registerBlock]
    constructor
    · intro hall g hg
      rw [Bool.eq_false_iff]
      intro hdecided
      obtain ⟨f, hwon⟩ := (hs.truthy_final_iff hg).mp hdecided
      have hne : block.hash ≠ f := fun h => hnew block.key (h ▸ (hs.winner _ _ hwon).1)
      -- the late sibling would have to be in the rejected set already
      obtain ⟨key, _, hmem, _⟩ :=
        hs.rejected_lost _ (hall block.key f block.hash hwon (.inr ⟨rfl, rfl⟩) hne)
      exact hnew key hmem
    · intro hopen key f h hwon hmem hne
      rcases hmem with hmem | ⟨rfl, rfl⟩
      · exact hlosers key f h hwon hmem hne
      · obtain ⟨g, hg, hf⟩ := hwon
        have hundecided := hopen g hg
        exact absurd ⟨g, hg, hf⟩ (hs.not_won_of_undecided hg hundecided f)

/-- Over every sequence of calls: the losers of the decided groups are rejected in every
state exactly when no block is registered in a group after the group was decided. -/
theorem losers_rejected_iff_noLateSibling (calls : List (Call F)) :
    Run.Always (step P params) LosersRejected new calls ↔
      Run.StepsMeet (step P params) NoLateSibling new calls := by
  have hlosers : LosersRejected new := fun _ _ _ hf => by simp [new] at hf
  refine Run.always_iff_stepsMeet (I := Consistent) (fun s c hs => hs.step P params c) ?_
    consistent_new hlosers
  intro s c hs hlosers
  cases c with
  | registerBlock block => exact losersRejected_registerBlock_iff hs hlosers block
  | applyVote ctx v =>
    simpa [step, NoLateSibling] using losersRejected_applyVote P params hs hlosers ctx v
  | pruneStale currentEpoch retainEpochs =>
    simpa [step, NoLateSibling] using
      losersRejected_pruneStale hs hlosers currentEpoch retainEpochs

end Runs

/-- A fork in which `a` is decided before its sibling `b` is registered: the one
validator holds all the weight and the committee has one seat. -/
def lateSiblingRun : List (Call Rat) :=
  [.registerBlock ⟨"a", "x", "p", by decide⟩,
    .applyVote ⟨fun _ _ => 1, fun _ => 1, fun _ => some "seed"⟩
      { blockHash := "a", accountId := "v", shard := 0, epoch := 0, seats := 1, pi := "v",
        sig := Sample.signature (voteMessage 0 0 "a") "v" },
    .registerBlock ⟨"b", "x", "p", by decide⟩]

/-- The late sibling of a decided group stays pending. -/
theorem late_sibling_stays_pending :
    ¬ ∀ calls, LosersRejected (Run.final (step Sample.primitives ⟨1, none⟩) new calls) := by
  intro hall
  have hstatus := hall lateSiblingRun "x:p" "a" "b" (by decide +kernel) (by decide +kernel)
    (by decide +kernel) (by decide)
  revert hstatus
  decide +kernel

end NeuronWeb.CommitteeFinality
