/-
  Consensus/HonestVoter: a voter that never backs two blocks of one group is never blamed.

  The equivocation guard of `applyVote` compares a vote with the choice that the group
  remembers for its voter.  Registration, quorum and pruning only ever forget choices, so
  every remembered choice is one that the voter has signed for a block of that very group
  (`SingleMinded`); a voter without rival votes cannot trip the guard.
-/
import NeuronWeb.Consensus.FinalitySafety

set_option autoImplicit false

namespace NeuronWeb.CommitteeFinality

variable {F : Type}

/-! ## The guard -/

/-- The vote `v` meets the choice `prior` that its voter has made before. -/
structure Rivals (s : CommitteeFinality) (v : CommitteeVote) (prior : Hex) : Prop where
  ne : prior ≠ v.blockHash
  group : ∃ key g, s.groupOf.get? v.blockHash = some key ∧ s.groups.get? key = some g ∧
    g.voterChoice.get? v.accountId = some prior

section Guard

variable [JsNumber F] {P : Primitives F} {params : CommitteeParams F} {ctx : VoteContext F}
  {s : CommitteeFinality} {v : CommitteeVote}

theorem rivals_of_equivocation {e : VoteEquivocation}
    (h : (applyVote P params ctx s v).2.bind VoteResult.equivocation = some e) :
    P.verify v.sig (voteMessage v.epoch v.shard v.blockHash) v.accountId = true ∧
      ∃ prior, Rivals s v prior ∧ e = ⟨v.accountId, prior, v.blockHash⟩ := by
  unfold applyVote at h
  cases hknown : s.groupOf.get? v.blockHash with
  | none => simp [hknown, VoteResult.refused] at h
  | some key =>
    cases hgroup : s.groups.get? key with
    | none => simp [hknown, hgroup] at h
    | some g =>
      simp only [hknown, hgroup] at h
      split at h
      · simp [VoteResult.refused] at h
      · cases hcheck : checkVote P params ctx v with
        | error reason => simp [hcheck, VoteResult.refused] at h
        | ok seats =>
          cases hchoice : g.voterChoice.get? v.accountId with
          | none =>
            have hnone : (tally params s key g v seats).2.equivocation = none := by
              unfold tally
              simp only
              split <;> rfl
            simp [hcheck, hchoice, hnone] at h
          | some prior =>
            simp only [hcheck, hchoice] at h
            split at h
            · simp [VoteResult.refused] at h
            · rename_i hne
              refine ⟨(checkVote_eq_ok.mp hcheck).1, prior,
                ⟨hne, key, g, hknown, hgroup, hchoice⟩, ?_⟩
              simpa using h.symm

end Guard

/-! ## The invariant -/

section Honest

-- `Reg h key`: the hash may be registered under the key; `Backed h`: the voter `x` signs for it
variable (x : Hex) (Reg : Hex → String → Prop) (Backed : Hex → Prop)

/-- The committee remembers of `x` only what `x` has signed, and blames it for nothing. -/
structure SingleMinded (s : CommitteeFinality) : Prop where
  registered : ∀ h key, s.groupOf.get? h = some key → Reg h key
  chosen : ∀ key g h, s.groups.get? key = some g → g.voterChoice.get? x = some h →
    Backed h ∧ Reg h key
  blameless : ∀ e ∈ s.equivocs, e.voterId ≠ x

/-- The vote counts for `x` only if `x` has signed for its block. -/
def SignedOnlyBy (P : Primitives F) (v : CommitteeVote) : Prop :=
  v.accountId = x → P.verify v.sig (voteMessage v.epoch v.shard v.blockHash) x = true →
    Backed v.blockHash

variable {x Reg Backed} {s : CommitteeFinality}

theorem singleMinded_new : SingleMinded x Reg Backed new where
  registered h key hget := by simp [new] at hget
  chosen key g h hget := by simp [new] at hget
  blameless e he := by simp [new] at he

theorem SingleMinded.registerBlock (hs : SingleMinded x Reg Backed s) {block : BlockRef}
    (hblock : Reg block.hash block.key) : SingleMinded x Reg Backed (s.registerBlock block) := by
  cases hhas : s.groupOf.has block.hash with
  | true => rwa [registerBlock_of_has hhas]
  | false =>
    refine ⟨fun h key hget => ?_, fun key g h hget hchoice => ?_, fun e he => ?_⟩
    · rw [groupOf_registerBlock hhas, JsMap.get?_set] at hget
      split at hget
      · rename_i hhash
        rw [← hhash, ← Option.some.inj hget]
        exact hblock
      · exact hs.registered h key hget
    · simp only [CommitteeFinality.registerBlock, hhas, Bool.false_eq_true, if_false,
        JsMap.get?_set] at hget
      split at hget
      · rename_i hkey
        rw [← Option.some.inj hget] at hchoice
        cases hold : s.groups.get? block.key with
        | none =>
          -- a new group remembers no choice
          simp [hold, emptyGroup] at hchoice
        | some g₀ =>
          simp only [hold, Option.getD_some] at hchoice
          rw [← hkey]
          exact hs.chosen block.key g₀ h hold hchoice
      · exact hs.chosen key g h hget hchoice
    · simp only [CommitteeFinality.registerBlock, hhas, Bool.false_eq_true, if_false] at he
      exact hs.blameless e he

section Votes

variable [JsNumber F] {P : Primitives F} {params : CommitteeParams F} {ctx : VoteContext F}
  {v : CommitteeVote}

theorem voterChoice_tally {key : String} {g : Group} {seats : Nat} {key' : String} {g' : Group}
    (hget : (tally params s key g v seats).1.groups.get? key' = some g') :
    s.groups.get? key' = some g' ∨ g'.voterChoice = JsMap.empty ∨
      (key = key' ∧ g'.voterChoice = g.voterChoice.set v.accountId v.blockHash) := by
  rcases tally_cases params s key g v seats with ⟨_, h⟩ | ⟨_, h⟩
  · rw [h] at hget
    simp only [counted, JsMap.get?_set] at hget
    split at hget
    · rename_i hkey
      rw [← Option.some.inj hget]
      exact .inr (.inr ⟨hkey, rfl⟩)
    · exact .inl hget
  · rw [h] at hget
    simp only [finalize, counted, JsMap.get?_set] at hget
    split at hget
    · rw [← Option.some.inj hget]
      exact .inr (.inl rfl)
    · exact .inl hget

theorem groupOf_tally (key : String) (g : Group) (seats : Nat) :
    (tally params s key g v seats).1.groupOf = s.groupOf := by
  unfold tally
  simp only
  split <;> rfl

theorem SingleMinded.applyVote (hs : SingleMinded x Reg Backed s)
    (hone : ∀ h h' key, Backed h → Backed h' → Reg h key → Reg h' key → h = h')
    (hv : SignedOnlyBy x Backed P v) :
    SingleMinded x Reg Backed (applyVote P params ctx s v).1 := by
  have hblameless : ∀ e ∈ (CommitteeFinality.applyVote P params ctx s v).1.equivocs,
      e.voterId ≠ x := by
    intro e he
    rw [applyVote_equivocs, List.mem_append, Option.mem_toList] at he
    rcases he with hold | hnew
    · exact hs.blameless e hold
    · obtain ⟨hsigned, prior, rivals, rfl⟩ := rivals_of_equivocation hnew
      rintro rfl
      -- both blocks are in one group, and the voter has signed for both
      obtain ⟨key, g, hknown, hgroup, hchoice⟩ := rivals.group
      obtain ⟨hprior, hpriorReg⟩ := hs.chosen key g prior hgroup hchoice
      exact rivals.ne (hone prior v.blockHash key hprior (hv rfl hsigned) hpriorReg
        (hs.registered v.blockHash key hknown))
  rcases applyVote_cases P params ctx s v with
    ⟨⟨equivocs, heq⟩, _⟩ | ⟨key, g, hcounted, heq⟩
  · rw [heq] at hblameless ⊢
    exact ⟨hs.registered, hs.chosen, hblameless⟩
  · rw [heq] at hblameless ⊢
    refine ⟨fun h key' hget => ?_, fun key' g' h hget hchoice => ?_, hblameless⟩
    · rw [groupOf_tally] at hget
      exact hs.registered h key' hget
    · rcases voterChoice_tally hget with hold | hempty | ⟨rfl, hset⟩
      · exact hs.chosen key' g' h hold hchoice
      · rw [hempty, JsMap.get?_empty] at hchoice
        cases hchoice
      · rw [hset, JsMap.get?_set] at hchoice
        split at hchoice
        · rename_i hvoter
          rw [← Option.some.inj hchoice]
          have hsigned := (checkVote_eq_ok.mp hcounted.checked).1
          rw [hvoter] at hsigned
          exact ⟨hv hvoter hsigned, hs.registered v.blockHash key hcounted.known⟩
        · exact hs.chosen key g h hcounted.group hchoice

end Votes

theorem SingleMinded.pruneStale (hs : SingleMinded x Reg Backed s) (currentEpoch retain : Int) :
    SingleMinded x Reg Backed (s.pruneStale currentEpoch retain).1 := by
  refine pruneStale_induction (fun s key g hs _ _ => ?_) hs currentEpoch retain
  refine ⟨fun h key' hget => ?_, fun key' g' h hget hchoice => ?_, hs.blameless⟩
  · simp only [dropGroup, JsMap.get?_deleteAll] at hget
    split at hget
    · cases hget
    · exact hs.registered h key' hget
  · exact hs.chosen key' g' h (JsMap.get?_of_get?_delete hget).2 hchoice

end Honest

end NeuronWeb.CommitteeFinality
