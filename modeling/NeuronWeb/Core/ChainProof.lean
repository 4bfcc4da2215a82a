/-
  Core/ChainProof: proofs built from a chain that its owner signed are accepted.

  `SignedChain` is what a chain has to be: blocks of one account, each at its height and
  authentic, behind a genesis block, and a head whose root commits all of them.
-/
import NeuronWeb.Core.CounterpartyProof
import NeuronWeb.Core.Inclusion
import Mathlib.Data.List.Induction

set_option autoImplicit false

namespace NeuronWeb

variable {F : Type} {P : Primitives F}

/-! ## The accumulator of a chain -/

theorem accumulate_concat (chain : List (Block F)) (b : Block F) :
    accumulate (chain ++ [b]) = (accumulate chain).bind fun acc => acc.append b.hash := by
  simp [accumulate, List.foldlM_append]

theorem getElem?_accumulate {chain : List (Block F)} {acc : AccountAccumulator}
    (h : accumulate chain = some acc) : acc.length = chain.length ∧
      ∀ (i : Nat) (b : Block F), chain[i]? = some b → ∃ bytes, hexToBytes b.hash = some bytes ∧
        acc[i]? = some bytes := by
  induction chain using List.reverseRecOn generalizing acc with
  | nil =>
    cases h
    exact ⟨rfl, by simp⟩
  | append_singleton chain b ih =>
    rw [accumulate_concat, Option.bind_eq_some_iff] at h
    obtain ⟨acc₀, hacc, happend⟩ := h
    obtain ⟨bytes, hbytes, rfl⟩ := Option.map_eq_some_iff.mp happend
    obtain ⟨hlength, hget⟩ := ih hacc
    refine ⟨by simp [hlength], ?_⟩
    intro i x hx
    rw [List.getElem?_append] at hx
    split at hx
    case isTrue hi =>
      obtain ⟨bytes', hbytes', hat⟩ := hget i x hx
      exact ⟨bytes', hbytes', List.getElem?_append_left (hlength ▸ hi) ▸ hat⟩
    case isFalse hi =>
      rw [List.getElem?_singleton] at hx
      split at hx
      case isTrue hzero =>
        have hlast : i = acc₀.length := by omega
        rw [← Option.some.inj hx, hlast]
        exact ⟨bytes, hbytes, by simp⟩
      case isFalse => cases hx

/-! ## Signed chains -/

/-- The chain of an account as its owner signed it. -/
structure SignedChain (P : Primitives F) (x : Hex) (chain : List (Block F)) : Prop where
  account : ∀ b ∈ chain, b.accountId = x
  verified : ∀ b ∈ chain, verifyBlock P b = true
  height : ∀ (i : Nat) (b : Block F), chain[i]? = some b → b.index = i
  genesis : ∀ b, chain.head? = some b → b.type = .open ∧ b.previousHash = GENESIS_PREV
  /-- The root of the head commits the whole chain. -/
  root : ∀ b, chain.getLast? = some b →
    ∃ acc, accumulate chain = some acc ∧ b.accumulatorRoot = acc.rootHex P

/-- The genesis block carries a commitment that a quorum of the policy attests. -/
def SatisfiesPolicy (P : Primitives F) (policy : QuorumPolicy) (genesis : Block F) : Prop :=
  ∃ commitment attestations, genesis.identityCommitment = some commitment ∧ commitment ≠ "" ∧
    genesis.attestations = some attestations ∧
      (checkQuorum P attestations commitment policy).ok = true

section Accepted

variable {x : Hex} {chain : List (Block F)} {policy : QuorumPolicy} {openBlock headBlock : Block F}

section

variable (h : SignedChain P x chain)
include h

theorem SignedChain.included {acc : AccountAccumulator}
    (hacc : accumulate chain = some acc) (hhead : chain.getLast? = some headBlock) {i : Nat}
    {b : Block F} (hb : chain[i]? = some b) :
    ∃ proof, acc.proofHex P i = some proof ∧
      verifyInclusion P headBlock.accumulatorRoot b.hash b.index (headBlock.index + 1) proof =
        some true := by
  obtain ⟨hlength, hget⟩ := getElem?_accumulate hacc
  obtain ⟨bytes, hbytes, hat⟩ := hget i b hb
  obtain ⟨acc', hacc', hroot⟩ := h.root headBlock hhead
  rw [hacc] at hacc'
  have hsize : headBlock.index + 1 = (acc.length : Int) := by
    rw [List.getLast?_eq_getElem?] at hhead
    have hpos : 0 < chain.length := by
      obtain ⟨hi, _⟩ := List.getElem?_eq_some_iff.mp hb
      omega
    rw [h.height _ _ hhead, hlength]
    omega
  rw [hroot, ← Option.some.inj hacc', hsize, h.height i b hb]
  exact verifyInclusion_proofHex P hbytes hat

theorem SignedChain.verifyAccountHead
    (hopen : chain.head? = some openBlock) (hhead : chain.getLast? = some headBlock)
    (hpolicy : SatisfiesPolicy P policy openBlock) {proof : List Hex}
    (hproof : verifyInclusion P headBlock.accumulatorRoot openBlock.hash 0
      (headBlock.index + 1) proof = some true) :
    verifyAccountHead P ⟨openBlock, headBlock, proof⟩ policy = some none := by
  obtain ⟨commitment, attestations, hcommitment, hne, hattestations, hquorum⟩ := hpolicy
  obtain ⟨htype, hprevious⟩ := h.genesis openBlock hopen
  have hopenMem := List.mem_of_head? hopen
  have hheadMem := List.mem_of_getLast? hhead
  have hindex : openBlock.index = 0 := h.height 0 openBlock (List.head?_eq_getElem? ▸ hopen)
  have haccount : headBlock.accountId = openBlock.accountId :=
    (h.account headBlock hheadMem).trans (h.account openBlock hopenMem).symm
  simp [NeuronWeb.verifyAccountHead, htype, hprevious, hindex, hcommitment, hattestations, hne,
    hquorum, h.verified openBlock hopenMem, h.verified headBlock hheadMem, haccount, hproof]

theorem SignedChain.exists_proof (wanted : Block F → Bool) {b : Block F}
    (hb : b ∈ chain) (hwanted : wanted b = true) :
    ∃ (proof : ChainProof F) (acc : AccountAccumulator) (i : Nat),
      proveInChain P chain wanted = some (some proof) ∧ wanted proof.block = true ∧
      chain.head? = some proof.openBlock ∧ chain.getLast? = some proof.headBlock ∧
      accumulate chain = some acc ∧ chain[i]? = some proof.block ∧
      acc.proofHex P 0 = some proof.openInclusionProof ∧
      acc.proofHex P i = some proof.blockInclusionProof := by
  obtain ⟨openBlock, hopen⟩ : ∃ openBlock, chain.head? = some openBlock :=
    ⟨_, List.head?_eq_some_head (List.ne_nil_of_mem hb)⟩
  obtain ⟨headBlock, hhead⟩ : ∃ headBlock, chain.getLast? = some headBlock :=
    ⟨_, List.getLast?_eq_some_getLast (List.ne_nil_of_mem hb)⟩
  obtain ⟨acc, hacc, _⟩ := h.root headBlock hhead
  obtain ⟨i, hi⟩ : ∃ i, chain.findIdx? wanted = some i := by
    apply Option.isSome_iff_exists.mp
    rw [List.findIdx?_isSome, List.any_eq_true]
    exact ⟨b, hb, hwanted⟩
  obtain ⟨hlt, hfound, _⟩ := List.findIdx?_eq_some_iff_getElem.mp hi
  have hat : chain[i]? = some chain[i] := List.getElem?_eq_getElem hlt
  have hzero : chain[0]? = some openBlock := List.head?_eq_getElem? ▸ hopen
  obtain ⟨openProof, hopenProof, -⟩ := h.included hacc hhead hzero
  obtain ⟨proof, hproof, -⟩ := h.included hacc hhead hat
  refine ⟨⟨openBlock, headBlock, openProof, chain[i], proof⟩, acc, i, ?_, hfound, hopen, hhead,
    hacc, hat, hopenProof, hproof⟩
  simp only [NeuronWeb.proveInChain, hopen, hhead, hi, hacc, hat, Option.bind_eq_bind,
    Option.bind_some, hproof]
  simp [show acc.proofHex P 0 = some openProof from hopenProof]

theorem SignedChain.proveInChain
    (hopen : chain.head? = some openBlock) (hpolicy : SatisfiesPolicy P policy openBlock)
    (wanted : Block F → Bool) {b : Block F} (hb : b ∈ chain) (hwanted : wanted b = true) :
    ∃ proof, proveInChain P chain wanted = some (some proof) ∧ proof.block ∈ chain ∧
      wanted proof.block = true ∧
      verifyChainInclusion P proof.openBlock proof.headBlock proof.openInclusionProof
        proof.block proof.blockInclusionProof policy = some none := by
  obtain ⟨proof, acc, i, hprove, hfound, hhead, hlast, hacc, hat, hopenProof, hproof⟩ :=
    h.exists_proof wanted hb hwanted
  have hmem : proof.block ∈ chain := List.mem_of_getElem? hat
  have hzero : chain[0]? = some proof.openBlock := List.head?_eq_getElem? ▸ hhead
  rw [Option.some.inj (hopen.symm.trans hhead)] at hpolicy
  obtain ⟨openProof, hopenProof', hopenIncluded⟩ := h.included hacc hlast hzero
  obtain ⟨blockProof, hproof', hincluded⟩ := h.included hacc hlast hat
  rw [h.height 0 _ hzero, Option.some.inj (hopenProof'.symm.trans hopenProof)] at hopenIncluded
  rw [Option.some.inj (hproof'.symm.trans hproof)] at hincluded
  refine ⟨proof, hprove, hmem, hfound, ?_⟩
  have haccount : proof.block.accountId = proof.headBlock.accountId :=
    (h.account _ hmem).trans (h.account _ (List.mem_of_getLast? hlast)).symm
  simp [verifyChainInclusion, h.verifyAccountHead hhead hlast hpolicy hopenIncluded,
    haccount, h.verified _ hmem, hincluded]

end

end Accepted

end NeuronWeb
