/-
  Consensus/SeedChain: what the epoch seeds commit to (`engine/consensus/seed.ts`).

  A seed is the hash of the seed before it and of the betas of its epoch, sorted and without
  repetitions. The betas are joined without delimiters, which says the same as the set of them
  as long as each is 32 bytes (`deriveNextSeed_eq_iff`).
-/
import Mathlib.Data.List.Sort
import Mathlib.Data.String.Basic
import NeuronWeb.Consensus.Seed
import NeuronWeb.Foundation.Run
import NeuronWeb.Transparent

set_option autoImplicit false

namespace NeuronWeb

variable {F : Type} {P : Primitives F}

/-! ## The set of betas -/

/-- A VRF output as the source writes it: 32 bytes in lowercase hex. -/
def IsBeta (beta : Hex) : Prop := ∃ bytes : Bytes, bytes.length = 32 ∧ beta = bytesToHex bytes

section Betas

variable {betas betas' : List Hex}

theorem insertBeta_perm (beta : Hex) (l : List Hex) : (insertBeta beta l).Perm (beta :: l) := by
  induction l with
  | nil => exact List.Perm.refl _
  | cons b rest ih =>
    unfold insertBeta
    split
    · exact List.Perm.refl _
    · exact (ih.cons b).trans (List.Perm.swap beta b rest)

theorem pairwise_insertBeta {beta : Hex} {l : List Hex} (h : l.Pairwise (· ≤ ·)) :
    (insertBeta beta l).Pairwise (· ≤ ·) := by
  induction l with
  | nil => exact List.pairwise_singleton _ _
  | cons b rest ih =>
    obtain ⟨hhead, htail⟩ := List.pairwise_cons.mp h
    unfold insertBeta
    split
    case isTrue hlt =>
      refine List.pairwise_cons.mpr ⟨fun c hc => ?_, h⟩
      rcases List.mem_cons.mp hc with rfl | hc
      · exact hlt.le
      · exact hlt.le.trans (hhead c hc)
    case isFalse hnot =>
      refine List.pairwise_cons.mpr ⟨fun c hc => ?_, ih htail⟩
      rcases List.mem_cons.mp ((insertBeta_perm beta rest).mem_iff.mp hc) with rfl | hc
      · exact not_lt.mp hnot
      · exact hhead c hc

theorem uniqueSorted_perm (betas : List Hex) :
    (uniqueSorted betas).Perm (JsSet.addAll JsMap.empty betas).keys := by
  unfold uniqueSorted
  induction (JsSet.addAll JsMap.empty betas).keys with
  | nil => exact List.Perm.refl _
  | cons b rest ih => exact (insertBeta_perm b _).trans (ih.cons b)

theorem pairwise_uniqueSorted (betas : List Hex) : (uniqueSorted betas).Pairwise (· ≤ ·) := by
  unfold uniqueSorted
  induction (JsSet.addAll JsMap.empty betas).keys with
  | nil => exact List.Pairwise.nil
  | cons b rest ih => exact pairwise_insertBeta ih

theorem mem_uniqueSorted (betas : List Hex) (b : Hex) : b ∈ uniqueSorted betas ↔ b ∈ betas := by
  rw [(uniqueSorted_perm betas).mem_iff, ← JsSet.has_iff_mem_keys, JsSet.has_addAll]
  simp

theorem uniqueSorted_eq_iff :
    uniqueSorted betas = uniqueSorted betas' ↔ ∀ b, b ∈ betas ↔ b ∈ betas' := by
  constructor
  · intro h b
    rw [← mem_uniqueSorted, h, mem_uniqueSorted]
  · intro h
    have hnodup : ∀ l : List Hex, (uniqueSorted l).Nodup := fun l =>
      (uniqueSorted_perm l).nodup_iff.mpr (JsSet.addAll JsMap.empty l).nodup
    have hperm : (uniqueSorted betas).Perm (uniqueSorted betas') := by
      refine (List.perm_ext_iff_of_nodup (hnodup betas) (hnodup betas')).mpr fun b => ?_
      rw [mem_uniqueSorted, mem_uniqueSorted, h b]
    exact hperm.eq_of_pairwise' (pairwise_uniqueSorted betas) (pairwise_uniqueSorted betas')

/-! ## The bytes that are hashed -/

theorem mapM_betas {l : List Hex} (h : ∀ b ∈ l, IsBeta b) :
    ∃ parts : List Bytes, l.mapM hexToBytes = some parts ∧ parts.map bytesToHex = l ∧
      ∀ p ∈ parts, p.length = 32 := by
  induction l with
  | nil => exact ⟨[], rfl, rfl, by simp⟩
  | cons b rest ih =>
    obtain ⟨bytes, hlength, rfl⟩ := h b List.mem_cons_self
    obtain ⟨parts, hparts, hback, hlengths⟩ := ih fun b' hb' => h b' (List.mem_cons_of_mem _ hb')
    refine ⟨bytes :: parts, by simp [hparts], by simp [hback], ?_⟩
    simpa [hlength] using hlengths

theorem eq_of_flatten_eq {α : Type} {parts parts' : List (List α)} {size : Nat} (hsize : 0 < size)
    (h : ∀ p ∈ parts, p.length = size) (h' : ∀ p ∈ parts', p.length = size)
    (heq : parts.flatten = parts'.flatten) : parts = parts' := by
  have hlengths : ∀ {l : List (List α)}, (∀ p ∈ l, p.length = size) →
      l.map List.length = List.replicate l.length size := by
    intro l hl
    refine List.eq_replicate_iff.mpr ⟨by simp, fun n hn => ?_⟩
    obtain ⟨p, hp, rfl⟩ := List.mem_map.mp hn
    exact hl p hp
  have hcount : parts.length = parts'.length := by
    have htotal := congrArg List.length heq
    rw [List.length_flatten, List.length_flatten, hlengths h, hlengths h',
      List.sum_replicate_nat, List.sum_replicate_nat] at htotal
    exact Nat.eq_of_mul_eq_mul_right hsize htotal
  refine List.eq_iff_flatten_eq.mpr ⟨heq, ?_⟩
  rw [hlengths h, hlengths h', hcount]

theorem deriveNextSeed_of_betas {prevSeed : Hex} {seed : Bytes}
    (hseed : hexToBytes prevSeed = some seed) (h : ∀ b ∈ betas, IsBeta b) :
    ∃ parts : List Bytes, parts.map bytesToHex = uniqueSorted betas ∧
      (∀ p ∈ parts, p.length = 32) ∧
      deriveNextSeed P prevSeed betas = some (hashHex P (seed ++ parts.flatten)) := by
  obtain ⟨parts, hparts, hback, hlengths⟩ :=
    mapM_betas (l := uniqueSorted betas) fun b hb => h b ((mem_uniqueSorted betas b).mp hb)
  exact ⟨parts, hback, hlengths, by simp [deriveNextSeed, hseed, hparts]⟩

theorem hashHex_injective (hP : Function.Injective P.sha256) : Function.Injective (hashHex P) :=
  bytesToHex_injective.comp hP

theorem deriveNextSeed_eq_iff (hP : Function.Injective P.sha256) {prevSeed : Hex} {seed : Bytes}
    (hseed : hexToBytes prevSeed = some seed) (h : ∀ b ∈ betas, IsBeta b)
    (h' : ∀ b ∈ betas', IsBeta b) :
    deriveNextSeed P prevSeed betas = deriveNextSeed P prevSeed betas' ↔
      ∀ b, b ∈ betas ↔ b ∈ betas' := by
  constructor
  · intro heq
    obtain ⟨parts, hback, hlengths, hnext⟩ := deriveNextSeed_of_betas (P := P) hseed h
    obtain ⟨parts', hback', hlengths', hnext'⟩ := deriveNextSeed_of_betas (P := P) hseed h'
    rw [hnext, hnext'] at heq
    have hbytes := hashHex_injective hP (Option.some.inj heq)
    have hparts := eq_of_flatten_eq (by decide) hlengths hlengths' (List.append_cancel_left hbytes)
    rw [← uniqueSorted_eq_iff, ← hback, ← hback', hparts]
  · intro hset
    rw [deriveNextSeed, deriveNextSeed, uniqueSorted_eq_iff.mpr hset]

theorem deriveNextSeed_eq_some {prevSeed next : Hex}
    (h : deriveNextSeed P prevSeed betas = some next) :
    ∃ (seed : Bytes) (parts : List Bytes), hexToBytes prevSeed = some seed ∧
      (uniqueSorted betas).mapM hexToBytes = some parts ∧
      next = hashHex P (seed ++ parts.flatten) := by
  unfold deriveNextSeed at h
  split at h
  · next seed parts hseed hparts => exact ⟨seed, parts, hseed, hparts, (Option.some.inj h).symm⟩
  · cases h

theorem hexToBytes_eq_of_derive (hP : Function.Injective P.sha256) {prevSeed prevSeed' next : Hex}
    (h : deriveNextSeed P prevSeed betas = some next)
    (h' : deriveNextSeed P prevSeed' betas = some next) :
    hexToBytes prevSeed = hexToBytes prevSeed' := by
  obtain ⟨seed, parts, hseed, hparts, rfl⟩ := deriveNextSeed_eq_some h
  obtain ⟨seed', parts', hseed', hparts', heq⟩ := deriveNextSeed_eq_some h'
  obtain rfl : parts = parts' := Option.some.inj (hparts.symm.trans hparts')
  rw [hseed, hseed', List.append_cancel_right (hashHex_injective hP heq)]

theorem derived_eq_of_hexToBytes {prevSeed prevSeed' next next' : Hex}
    (h : deriveNextSeed P prevSeed betas = some next)
    (h' : deriveNextSeed P prevSeed' betas' = some next')
    (hbytes : hexToBytes next = hexToBytes next') : next = next' := by
  obtain ⟨seed, parts, -, -, rfl⟩ := deriveNextSeed_eq_some h
  obtain ⟨seed', parts', -, -, rfl⟩ := deriveNextSeed_eq_some h'
  unfold hashHex at hbytes ⊢
  rw [hexToBytes_bytesToHex, hexToBytes_bytesToHex] at hbytes
  rw [Option.some.inj hbytes]

end Betas

/-! ## The chain -/

structure SeedCommit where
  epoch : Int
  betas : List Hex

/-- The seeds, and the betas that were last committed for each epoch. -/
structure SeedHistory where
  seeds : EpochSeeds
  committed : JsMap Int (List Hex)

namespace SeedHistory

/-- `new EpochSeeds(genesis)`. -/
def start (genesis : Hex) : SeedHistory := ⟨JsMap.empty.set 0 genesis, .empty⟩

/-- A commit; one that throws changes nothing. -/
def step (P : Primitives F) (h : SeedHistory) (c : SeedCommit) : SeedHistory :=
  match h.seeds.commit P c.epoch c.betas with
  | none => h
  | some (seeds, _) => ⟨seeds, h.committed.set c.epoch c.betas⟩

/-- The commit does not throw. -/
def Accepts (P : Primitives F) (h : SeedHistory) (c : SeedCommit) : Prop :=
  (h.seeds.commit P c.epoch c.betas).isSome = true

instance (P : Primitives F) (h : SeedHistory) (c : SeedCommit) : Decidable (Accepts P h c) :=
  inferInstanceAs (Decidable (_ = true))

/-- Every seed is derived from the seed before it and the betas last committed for it. -/
def Chained (P : Primitives F) (h : SeedHistory) : Prop :=
  ∀ epoch next, 0 ≤ epoch → h.seeds.seedFor (epoch + 1) = some next →
    ∃ prev betas, h.seeds.seedFor epoch = some prev ∧ h.committed.get? epoch = some betas ∧
      deriveNextSeed P prev betas = some next

/-- An epoch behind which two seeds are known is committed with the betas that it has. -/
def KeepsBetas (h : SeedHistory) (c : SeedCommit) : Prop :=
  (h.seeds.seedFor (c.epoch + 2)).isSome = true →
    ∃ betas, h.committed.get? c.epoch = some betas ∧ ∀ b, b ∈ betas ↔ b ∈ c.betas

/-- What commits cannot change. -/
structure Grown (h : SeedHistory) : Prop where
  nonneg : ∀ epoch, (h.seeds.seedFor epoch).isSome = true → 0 ≤ epoch

end SeedHistory

section Chain

open SeedHistory

variable {h : SeedHistory} {c : SeedCommit}

theorem accepts_iff : Accepts P h c ↔ ∃ prev next, h.seeds.seedFor c.epoch = some prev ∧
    deriveNextSeed P prev c.betas = some next ∧
    h.step P c = ⟨h.seeds.set (c.epoch + 1) next, h.committed.set c.epoch c.betas⟩ := by
  unfold Accepts SeedHistory.step EpochSeeds.commit EpochSeeds.seedFor
  cases hprev : h.seeds.get? c.epoch with
  | none => simp
  | some prev =>
    cases hnext : deriveNextSeed P prev c.betas with
    | none => simp [hnext]
    | some next => simp [hnext]

theorem grown_start (genesis : Hex) : Grown (start genesis) where
  nonneg epoch hknown := by
    unfold start EpochSeeds.seedFor at hknown
    rw [JsMap.get?_set] at hknown
    split at hknown
    · next hzero => omega
    · cases hknown

theorem chained_start (genesis : Hex) : Chained P (start genesis) := by
  intro epoch next hepoch hnext
  unfold start EpochSeeds.seedFor at hnext
  rw [JsMap.get?_set, if_neg (by omega)] at hnext
  cases hnext

theorem grown_step (hg : Grown h) (hc : Accepts P h c) : Grown (h.step P c) := by
  obtain ⟨prev, next, hprev, -, hstep⟩ := accepts_iff.mp hc
  have hepoch := hg.nonneg c.epoch (by rw [hprev]; rfl)
  rw [hstep]
  refine ⟨fun epoch hknown => ?_⟩
  unfold EpochSeeds.seedFor at hknown
  rw [JsMap.get?_set] at hknown
  split at hknown
  · next heq => omega
  · exact hg.nonneg epoch hknown

/-- A commit that keeps the betas of an epoch with two seeds behind it keeps the chain. -/
theorem chained_step (hg : Grown h) (hchain : Chained P h) (hc : Accepts P h c)
    (hkeeps : KeepsBetas h c) : Chained P (h.step P c) := by
  obtain ⟨prev, next, hprev, hnext, hstep⟩ := accepts_iff.mp hc
  have hepoch := hg.nonneg c.epoch (by rw [hprev]; rfl)
  rw [hstep]
  intro epoch n hnonneg hn
  unfold EpochSeeds.seedFor at hn hprev ⊢
  simp only [JsMap.get?_set] at hn ⊢
  by_cases hhere : c.epoch = epoch
  · -- the link that is committed
    subst hhere
    rw [if_pos rfl] at hn
    rw [if_neg (by omega), if_pos rfl]
    exact ⟨prev, c.betas, hprev, rfl, hnext.trans hn⟩
  · rw [if_neg (by omega)] at hn
    obtain ⟨prev', betas', hprev', hbetas', hderive⟩ := hchain epoch n hnonneg hn
    rw [if_neg hhere]
    by_cases habove : c.epoch + 1 = epoch
    · -- the link above it starts from the seed that is stored anew
      subst habove
      rw [if_pos rfl]
      have hknown : (h.seeds.seedFor (c.epoch + 2)).isSome = true := by
        rw [EpochSeeds.seedFor, show c.epoch + 2 = c.epoch + 1 + 1 by omega, hn]
        rfl
      obtain ⟨betas, hcommitted, hsame⟩ := hkeeps hknown
      obtain ⟨prev₀, betas₀, hprev₀, hbetas₀, hderive₀⟩ := hchain c.epoch prev' hepoch hprev'
      obtain rfl : prev = prev₀ := Option.some.inj (hprev.symm.trans hprev₀)
      obtain rfl : betas = betas₀ := Option.some.inj (hcommitted.symm.trans hbetas₀)
      have hagain : deriveNextSeed P prev betas = deriveNextSeed P prev c.betas := by
        rw [deriveNextSeed, deriveNextSeed, uniqueSorted_eq_iff.mpr hsame]
      obtain rfl : next = prev' :=
        Option.some.inj (hnext.symm.trans (hagain.symm.trans hderive₀))
      exact ⟨next, betas', rfl, hbetas', hderive⟩
    · rw [if_neg habove]
      exact ⟨prev', betas', hprev', hbetas', hderive⟩

/-- A commit that keeps the chain keeps the betas of an epoch with two seeds behind it. -/
theorem keepsBetas_of_chained_step (hP : Function.Injective P.sha256) (hg : Grown h)
    (hbetas : ∀ epoch betas, h.committed.get? epoch = some betas → ∀ b ∈ betas, IsBeta b)
    (hchain : Chained P h) (hc : Accepts P h c) (hcbetas : ∀ b ∈ c.betas, IsBeta b)
    (hafter : Chained P (h.step P c)) : KeepsBetas h c := by
  intro hknown
  obtain ⟨n, hn⟩ := Option.isSome_iff_exists.mp hknown
  obtain ⟨prev, next, hprev, hnext, hstep⟩ := accepts_iff.mp hc
  have hepoch := hg.nonneg c.epoch (by rw [hprev]; rfl)
  have hshift : c.epoch + 1 + 1 = c.epoch + 2 := by omega
  obtain ⟨old, above, hold, habove, hlink⟩ :=
    hchain (c.epoch + 1) n (by omega) (by rw [hshift, hn])
  obtain ⟨prev', betas, hprev', hcommitted, hderive⟩ := hchain c.epoch old hepoch hold
  obtain rfl : prev = prev' := Option.some.inj (hprev.symm.trans hprev')
  -- the link above holds of the old seed and of the new one
  have hlink' : deriveNextSeed P next above = some n := by
    rw [hstep] at hafter
    obtain ⟨new, above', hnew, habove', hlink'⟩ := hafter (c.epoch + 1) n (by omega) (by
      rw [EpochSeeds.seedFor, JsMap.get?_set, if_neg (by omega), hshift]
      exact hn)
    unfold EpochSeeds.seedFor at hnew
    rw [JsMap.get?_set_self] at hnew
    simp only [JsMap.get?_set] at habove'
    rw [if_neg (by omega), habove] at habove'
    rw [Option.some.inj hnew, Option.some.inj habove', hlink']
  obtain rfl : old = next :=
    derived_eq_of_hexToBytes hderive hnext (hexToBytes_eq_of_derive hP hlink hlink')
  obtain ⟨seed, -, hseed, -⟩ := deriveNextSeed_eq_some hnext
  refine ⟨betas, hcommitted, ?_⟩
  exact (deriveNextSeed_eq_iff hP hseed (hbetas _ _ hcommitted) hcbetas).mp
    (hderive.trans hnext.symm)

theorem committed_step {Q : List Hex → Prop}
    (hbetas : ∀ epoch betas, h.committed.get? epoch = some betas → Q betas) (hc : Q c.betas)
    (epoch : Int) (betas : List Hex) (hget : (h.step P c).committed.get? epoch = some betas) :
    Q betas := by
  unfold SeedHistory.step at hget
  split at hget
  · exact hbetas epoch betas hget
  · rw [JsMap.get?_set] at hget
    split at hget
    · exact Option.some.inj hget ▸ hc
    · exact hbetas epoch betas hget

/-- Along every run of commits that do not throw, the seeds form a chain as long as no epoch with
two seeds behind it is committed with other betas; when the betas are 32 bytes each, only as
long.  And the next seed says which set of betas was committed. -/
theorem seeds_chain_iff (hP : Function.Injective P.sha256) (genesis : Hex)
    (commits : List SeedCommit)
    (haccepts : Run.StepsMeet (SeedHistory.step P) (Accepts P) (start genesis) commits) :
    (Run.StepsMeet (SeedHistory.step P) KeepsBetas (start genesis) commits →
      Run.Always (SeedHistory.step P) (Chained P) (start genesis) commits) ∧
    ((∀ c ∈ commits, ∀ b ∈ c.betas, IsBeta b) →
      (Run.Always (SeedHistory.step P) (Chained P) (start genesis) commits ↔
        Run.StepsMeet (SeedHistory.step P) KeepsBetas (start genesis) commits)) ∧
    ∀ (prevSeed : Hex) (seed : Bytes), hexToBytes prevSeed = some seed →
      ∀ betas betas' : List Hex, (∀ b ∈ betas, IsBeta b) → (∀ b ∈ betas', IsBeta b) →
        (deriveNextSeed P prevSeed betas = deriveNextSeed P prevSeed betas' ↔
          ∀ b, b ∈ betas ↔ b ∈ betas') := by
  refine ⟨fun hkeeps => ?_, fun hbetas => ?_, fun prevSeed seed hseed betas betas' h h' =>
    deriveNextSeed_eq_iff hP hseed h h'⟩
  · refine Run.always_of_invariant (I := fun h => Grown h ∧ Chained P h)
      (C := fun h c => Accepts P h c ∧ KeepsBetas h c)
      (fun h c hI hC => ⟨grown_step hI.1 hC.1, chained_step hI.1 hI.2 hC.1 hC.2⟩)
      (fun h hI => hI.2) ⟨grown_start genesis, chained_start genesis⟩ ?_
    exact Run.EveryStep.and haccepts hkeeps
  · refine Run.always_iff_stepsMeet_of_promised
      (I := fun h => Grown h ∧ ∀ epoch betas, h.committed.get? epoch = some betas →
        ∀ b ∈ betas, IsBeta b)
      (N := fun h c => Accepts P h c ∧ ∀ b ∈ c.betas, IsBeta b) (fun h c hI hN => ?_)
      (fun h c hI hN hchain => ?_) ⟨grown_start genesis, fun epoch betas hget => by cases hget⟩
      (chained_start genesis) ?_
    · exact ⟨grown_step hI.1 hN.1, fun epoch betas hget =>
        committed_step (Q := fun betas => ∀ b ∈ betas, IsBeta b) hI.2 hN.2 epoch betas hget⟩
    · exact ⟨keepsBetas_of_chained_step hP hI.1 hI.2 hchain hN.1 hN.2,
        chained_step hI.1 hchain hN.1⟩
    · exact Run.EveryStep.and haccepts (Run.stepsMeet_of_mem (fun c hc _ => hbetas c hc) _)

end Chain

/-- A beta of 32 equal bytes. -/
def plainBeta (byte : UInt8) : Hex := bytesToHex (List.replicate 32 byte)

theorem isBeta_plainBeta (byte : UInt8) : IsBeta (plainBeta byte) :=
  ⟨_, List.length_replicate, rfl⟩

/-- Two epochs, the first of them committed twice with the same betas in another order. -/
def orderlyCommits : List SeedCommit :=
  [⟨0, [plainBeta 1, plainBeta 2]⟩, ⟨1, []⟩, ⟨0, [plainBeta 2, plainBeta 1]⟩]

theorem seeds_chain_orderlyCommits :
    Run.Always (SeedHistory.step Sample.transparent) (SeedHistory.Chained Sample.transparent)
      (SeedHistory.start "00") orderlyCommits := by
  refine (seeds_chain_iff Sample.collisionFree_transparent.sha256_injective _ orderlyCommits
    (by decide +kernel)).1 ⟨?_, ?_, ?_, trivial⟩
  · intro hknown
    exact absurd hknown (by decide +kernel)
  · intro hknown
    exact absurd hknown (by decide +kernel)
  · intro _
    refine ⟨[plainBeta 1, plainBeta 2], by decide +kernel, fun b => ?_⟩
    simp only [List.mem_cons, List.not_mem_nil, or_false]
    constructor
    · rintro (hb | hb)
      · exact .inr hb
      · exact .inl hb
    · rintro (hb | hb)
      · exact .inr hb
      · exact .inl hb

/-- Two epochs are committed, and then the first one again without its beta. -/
def rewritingCommits : List SeedCommit := [⟨0, [plainBeta 1]⟩, ⟨1, []⟩, ⟨0, []⟩]

def rewrittenHistory : SeedHistory :=
  Run.final (SeedHistory.step Sample.transparent)
    (SeedHistory.start "00") rewritingCommits

/-- The seed of epoch 2 is still derived from a seed of epoch 1 that is gone. -/
theorem rewritten_link_leaves_stale_seed :
    (∀ c ∈ rewritingCommits, ∀ b ∈ c.betas, IsBeta b) ∧
    Run.StepsMeet (SeedHistory.step Sample.transparent) (SeedHistory.Accepts Sample.transparent)
      (SeedHistory.start "00") rewritingCommits ∧
    ¬ Run.Always (SeedHistory.step Sample.transparent) (SeedHistory.Chained Sample.transparent)
      (SeedHistory.start "00") rewritingCommits := by
  refine ⟨by simp [rewritingCommits, isBeta_plainBeta], by decide +kernel, fun hall => ?_⟩
  have hchain : SeedHistory.Chained Sample.transparent rewrittenHistory := hall.at_final
  have hstale : (rewrittenHistory.seeds.seedFor 2).isSome = true ∧
      ((rewrittenHistory.seeds.seedFor 1).bind fun prev =>
        (rewrittenHistory.committed.get? 1).bind fun betas =>
          deriveNextSeed Sample.transparent prev betas) ≠ rewrittenHistory.seeds.seedFor 2 := by
    decide +kernel
  obtain ⟨hknown, hne⟩ := hstale
  obtain ⟨next, hnext⟩ := Option.isSome_iff_exists.mp hknown
  obtain ⟨prev, betas, hprev, hbetas, hderive⟩ := hchain 1 next (by decide) hnext
  rw [hnext, hprev, Option.bind_some, hbetas, Option.bind_some,
    hderive] at hne
  exact hne rfl

end NeuronWeb
