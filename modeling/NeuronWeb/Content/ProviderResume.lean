/-
  Content/ProviderResume: a provider whose profile is dropped and whose chain comes again
  (`engine/content/provider-ledger.ts`).

  A purge takes the profile of an account and leaves everything else: the durable record, the
  settled periods and baselines, the capacity history. Folding the account's chain in once more
  rebuilds the profile (`Resumable`): a register block reads the profile before it and the
  durable record, which the first register block of the account has written for good.
-/
import Mathlib.Data.List.Induction
import NeuronWeb.Content.ProviderLedger

set_option autoImplicit false

namespace NeuronWeb.ProviderLedger

variable {F : Type}

/-- The profile of `pub` and its durable record are the same on both. -/
structure SameProfile (pub : Hex) (A B : ProviderLedger F) : Prop where
  profile : A.providers.get? pub = B.providers.get? pub
  durable : A.durable.get? pub = B.durable.get? pub

theorem SameProfile.refl (pub : Hex) (A : ProviderLedger F) : SameProfile pub A A := ⟨rfl, rfl⟩

/-- The provider ledger after a purge. -/
def withdraw (A : ProviderLedger F) (pub : Hex) : ProviderLedger F :=
  { A with providers := A.providers.delete pub }

section Apply

variable [JsNumber F] {P : Primitives F} {A B : ProviderLedger F} {b : BlockContent F} {pub : Hex}

theorem isRegistered_congr (h : A.providers.get? pub = B.providers.get? pub) :
    A.isRegistered pub = B.isRegistered pub := by
  unfold isRegistered
  rw [h]

/-- The first register block of an account writes its durable record, and nothing changes it. -/
theorem durable_apply (P : Primitives F) (A : ProviderLedger F) (b : BlockContent F) (pub : Hex) :
    (apply P A b).durable.get? pub =
      if b.type = .storageRegister ∧ b.accountId = pub then
        some ((A.durable.get? pub).getD ⟨b.timestamp, 0⟩)
      else A.durable.get? pub := by
  unfold apply
  split
  · next htype =>
      show (A.durable.set b.accountId ((A.durable.get? b.accountId).getD
        ⟨b.timestamp, 0⟩)).get? pub = _
      rw [JsMap.get?_set]
      by_cases hpub : b.accountId = pub
      · rw [if_pos hpub, if_pos ⟨htype, hpub⟩, hpub]
      · rw [if_neg hpub, if_neg (fun h => hpub h.2)]
  · next htype =>
      rw [if_neg (by simp [htype])]
      rfl
  · next htype =>
      rw [if_neg (by simp [htype])]
      unfold applySettle
      split <;> rfl
  · next hregister _ _ => rw [if_neg (fun h => hregister h.1)]

theorem profile_apply_other (hne : b.accountId ≠ pub) :
    (apply P A b).providers.get? pub = A.providers.get? pub := by
  unfold apply
  split
  · exact JsMap.get?_set_ne _ _ hne
  · exact (JsMap.get?_delete ..).trans (if_neg hne)
  · unfold applySettle
    split
    · dsimp only
      split
      · exact JsMap.get?_set_ne _ _ hne
      · rfl
    · rfl
  · rfl

theorem sameProfile_apply_other (hne : b.accountId ≠ pub) : SameProfile pub (apply P A b) A :=
  ⟨profile_apply_other hne, by rw [durable_apply, if_neg (fun h => hne h.2)]⟩

theorem profile_apply (hprofile : A.providers.get? b.accountId = B.providers.get? b.accountId)
    (hdurable : b.type = .storageRegister →
      (A.durable.get? b.accountId).getD ⟨b.timestamp, 0⟩ =
        (B.durable.get? b.accountId).getD ⟨b.timestamp, 0⟩) :
    (apply P A b).providers.get? b.accountId = (apply P B b).providers.get? b.accountId := by
  unfold apply
  split
  · next htype =>
      unfold applyRegister pushCapacity
      simp only [JsMap.get?_set_self, hprofile, hdurable htype]
  · exact (JsMap.get?_delete_self ..).trans (JsMap.get?_delete_self ..).symm
  · unfold applySettle
    split
    · dsimp only
      rw [hprofile]
      cases B.providers.get? b.accountId with
      | none => exact hprofile
      | some p => exact (JsMap.get?_set_self ..).trans (JsMap.get?_set_self ..).symm
    · exact hprofile
  · exact hprofile

theorem SameProfile.apply (h : SameProfile b.accountId A B) :
    SameProfile b.accountId (apply P A b) (apply P B b) :=
  ⟨profile_apply h.profile fun _ => by rw [h.durable], by
    rw [durable_apply, durable_apply, h.durable]⟩

theorem profile_apply_of_none (h : A.providers.get? b.accountId = none)
    (htype : b.type ≠ .storageRegister) : (apply P A b).providers.get? b.accountId = none := by
  unfold apply
  split
  · next hregister => exact absurd hregister htype
  · exact JsMap.get?_delete_self ..
  · unfold applySettle
    split
    · dsimp only
      rw [h]
      exact h
    · exact h
  · exact h

end Apply

/-! ## The chain once more -/

section Resume

variable [JsNumber F] (P : Primitives F)

/-- The provider ledger after a purge of `pub`, with the blocks of the chain folded in again. -/
def resume (A : ProviderLedger F) (pub : Hex) (chain : List (Block F)) : ProviderLedger F :=
  chain.foldl (fun A b => apply P A b.toBlockContent) (A.withdraw pub)

variable {P} {A B : ProviderLedger F} {pub : Hex} {chain : List (Block F)}

theorem resume_append (A : ProviderLedger F) (pub : Hex) (chain : List (Block F)) (b : Block F) :
    resume P A pub (chain ++ [b]) = apply P (resume P A pub chain) b.toBlockContent := by
  simp [resume]

theorem resume_nil_profile (A : ProviderLedger F) (pub : Hex) :
    (resume P A pub []).providers.get? pub = none := JsMap.get?_delete_self ..

theorem sameProfile_resume (hchain : ∀ b ∈ chain, b.accountId = pub)
    (h : A.durable.get? pub = B.durable.get? pub) :
    SameProfile pub (resume P A pub chain) (resume P B pub chain) := by
  induction chain using List.reverseRecOn with
  | nil => exact ⟨(resume_nil_profile A pub).trans (resume_nil_profile B pub).symm, h⟩
  | append_singleton chain b ih =>
    have hsame := ih fun b' hb' => hchain b' (List.mem_append_left _ hb')
    obtain rfl : b.accountId = pub := hchain b (by simp)
    rw [resume_append, resume_append]
    exact hsame.apply

theorem durable_resume {d : DurableRecord} (h : A.durable.get? pub = some d) :
    (resume P A pub chain).durable.get? pub = some d := by
  induction chain using List.reverseRecOn with
  | nil => exact h
  | append_singleton chain b ih =>
    rw [resume_append, durable_apply, ih]
    split <;> rfl

theorem profile_resume_of_unregistered
    (h : ∀ b ∈ chain, b.accountId = pub ∧ b.type ≠ .storageRegister) :
    (resume P A pub chain).providers.get? pub = none := by
  induction chain using List.reverseRecOn with
  | nil => exact resume_nil_profile A pub
  | append_singleton chain b ih =>
    have hnone := ih fun b' hb' => h b' (List.mem_append_left _ hb')
    obtain ⟨rfl, htype⟩ := h b (by simp)
    rw [resume_append]
    exact profile_apply_of_none hnone htype

/-- The chain of `pub` says what its profile is, and whenever it deregistered it had been
registered. -/
structure Resumable (P : Primitives F) (A : ProviderLedger F) (pub : Hex)
    (chain : List (Block F)) : Prop where
  profile : A.providers.get? pub = (resume P A pub chain).providers.get? pub
  durable : ∀ b ∈ chain, b.type = .storageRegister → ∃ d, A.durable.get? pub = some d
  registered : ∀ pre b, pre ++ [b] <+: chain → b.type = .storageDeregister →
    (resume P A pub pre).isRegistered pub = true

theorem resumable_nil (h : A.providers.get? pub = none) : Resumable P A pub [] where
  profile := h.trans (resume_nil_profile A pub).symm
  durable b hb := by cases hb
  registered pre b hpre := by simp at hpre

theorem Resumable.congr (h : Resumable P A pub chain) (hchain : ∀ b ∈ chain, b.accountId = pub)
    (hsame : SameProfile pub B A) : Resumable P B pub chain where
  profile := hsame.profile.trans
    (h.profile.trans (sameProfile_resume hchain hsame.durable).profile.symm)
  durable b hb htype := by
    rw [hsame.durable]
    exact h.durable b hb htype
  registered pre b hpre htype := by
    have hpreChain : ∀ b' ∈ pre, b'.accountId = pub := fun b' hb' =>
      hchain b' (hpre.subset (List.mem_append_left _ hb'))
    rw [isRegistered_congr (sameProfile_resume hpreChain hsame.durable).profile]
    exact h.registered pre b hpre htype

/-- One more block of the account. -/
theorem Resumable.append (h : Resumable P A pub chain) (hchain : ∀ b ∈ chain, b.accountId = pub)
    {b : Block F} (haccount : b.accountId = pub)
    (hregistered : b.type = .storageDeregister → A.isRegistered pub = true) :
    Resumable P (apply P A b.toBlockContent) pub (chain ++ [b]) := by
  subst haccount
  have hdurable' := durable_apply P A b.toBlockContent b.accountId
  -- a register block finds the durable record that it found the first time
  have hagain : ∀ pre, pre <+: chain →
      (resume P (apply P A b.toBlockContent) b.accountId pre).providers.get? b.accountId =
        (resume P A b.accountId pre).providers.get? b.accountId := by
    intro pre hpre
    have hpreChain : ∀ b' ∈ pre, b'.accountId = b.accountId := fun b' hb' =>
      hchain b' (hpre.subset hb')
    cases hd : A.durable.get? b.accountId with
    | some d =>
      refine (sameProfile_resume hpreChain ?_).profile
      rw [hdurable', hd]
      split <;> rfl
    | none =>
      have hplain : ∀ b' ∈ pre, b'.accountId = b.accountId ∧ b'.type ≠ .storageRegister := by
        intro b' hb'
        refine ⟨hpreChain b' hb', fun htype => ?_⟩
        obtain ⟨d, hsome⟩ := h.durable b' (hpre.subset hb') htype
        rw [hd] at hsome
        cases hsome
      rw [profile_resume_of_unregistered hplain, profile_resume_of_unregistered hplain]
  have hprofile := (hagain chain List.prefix_rfl).trans h.profile.symm
  refine ⟨?_, fun b' hb' htype => ?_, fun pre b' hpre htype => ?_⟩
  · rw [resume_append]
    refine profile_apply hprofile.symm fun htype => ?_
    have hrecord : (apply P A b.toBlockContent).durable.get? b.accountId =
        some ((A.durable.get? b.accountId).getD ⟨b.timestamp, 0⟩) := by
      rw [hdurable', if_pos ⟨htype, rfl⟩]
    rw [durable_resume hrecord, Option.getD_some]
  · rw [hdurable']
    rcases List.mem_append.mp hb' with hold | hnew
    · obtain ⟨d, hd⟩ := h.durable b' hold htype
      rw [hd]
      split <;> exact ⟨_, rfl⟩
    · rw [List.mem_singleton.mp hnew] at htype
      exact ⟨_, if_pos ⟨htype, rfl⟩⟩
  · rcases List.prefix_concat_iff.mp hpre with hall | hold
    · obtain ⟨rfl, hlast⟩ := List.append_inj' hall rfl
      obtain rfl := (List.cons.inj hlast).1
      rw [isRegistered_congr hprofile]
      exact hregistered htype
    · rw [isRegistered_congr (hagain pre ((List.prefix_append pre [b']).trans hold))]
      exact h.registered pre b' hold htype

end Resume

end NeuronWeb.ProviderLedger
