/-
  Ledger/PacketCompleteness: a chain that the ledger holds proves its own blocks.

  `buildCounterpartyPacket` and `buildMintProof` answer from a held chain, whoever wrote it.
  `Committed` is what makes the answer acceptable: accumulator and chain agree, and the chain is
  one that its owner signed.
-/
import NeuronWeb.Core.ChainProof
import NeuronWeb.Ledger.Moves
import NeuronWeb.Ledger.Sample
import NeuronWeb.Transparent

set_option autoImplicit false

namespace NeuronWeb.EngineLedger

variable {F : Type}

/-! ## Serving proofs -/

/-- The proof packet for a transfer on a chain this ledger holds; the inner `none` is
`null`. -/
def buildCounterpartyPacket (P : Primitives F) (L : EngineLedger F) (senderPub sendHash : Hex) :
    Option (Option (CounterpartyPacket F)) :=
  match L.held.get? senderPub with
  | none => some none
  | some h => if h.chain.length = 0 then some none else buildPacketFromChain P h.chain sendHash

/-- The mint proof for a token whose minter's chain this ledger holds. -/
def buildMintProof (P : Primitives F) (L : EngineLedger F) (minterPub tokenId : Hex) :
    Option (Option (MintProof F)) :=
  match L.held.get? minterPub with
  | none => some none
  | some h => if h.chain.length = 0 then some none else buildMintProofFromChain P h.chain tokenId

/-- The proofs of all transfers and mints on the chain of `x` are built and accepted, when its
genesis block satisfies the policy. -/
def ProofsAccepted (P : Primitives F) (policy : QuorumPolicy) (x : Hex) (L : EngineLedger F) :
    Prop :=
  ∀ genesis, (L.getAccountChain x).head? = some genesis → SatisfiesPolicy P policy genesis →
    (∀ send ∈ L.getAccountChain x, send.type = .send ∨ send.type = .nftSend →
      ∀ recipient, send.recipient = some recipient →
        ∃ packet, buildCounterpartyPacket P L x send.hash = some (some packet) ∧
          verifyPacket P packet recipient policy = some none) ∧
    ∀ mint ∈ L.getAccountChain x, mint.type = .nftMint → ∀ tokenId, mint.tokenId = some tokenId →
      ∃ proof, buildMintProof P L x tokenId = some (some proof) ∧
        verifyMintProof P proof tokenId policy = some none

/-- A call that writes for `x` is given a key of `x`. -/
def OwnerSigned (P : Primitives F) (x : Hex) (c : Call F) : Prop :=
  ∀ priv, c.signer = some (x, priv) →
    ∀ message, ∃ sig, P.sign message priv = some sig ∧ P.verify sig message x = true

/-! ## The invariant -/

/-- What is held of `x` is a chain that `x` signed, with its accumulator. -/
structure Committed (P : Primitives F) (x : Hex) (h : Held F) : Prop where
  accumulated : accumulate h.chain = some h.acc
  signed : SignedChain P x h.chain
  minted : ∀ b ∈ h.chain, b.type = .nftMint → truthy b.contentRef = true

theorem committed_nil (P : Primitives F) (x : Hex) : Committed P x ⟨[], []⟩ where
  accumulated := rfl
  signed := ⟨by simp, by simp, by simp, by simp, by simp⟩
  minted := by simp

section Invariant

variable {P : Primitives F} {x : Hex} {c : Call F}

/-- A block that takes the chain on keeps it signed. -/
theorem Extends.committed {h : Held F} {b : Block F} {acc : AccountAccumulator}
    (ext : Extends P c x h b acc) (hc : OwnerSigned P x c) (hh : Committed P x h) :
    Committed P x ⟨h.chain ++ [b], acc⟩ := by
  have hverified : verifyBlock P b = true := by
    refine (verifyBlock_iff P b).mpr ⟨ext.hash, ?_⟩
    rcases ext.signed with hsignature | ⟨priv, hsigner, hsign⟩
    · exact hsignature
    · obtain ⟨sig, hsig, hverify⟩ := hc priv hsigner (blockSigningMessage b.hash b.accumulatorRoot)
      rw [hsig] at hsign
      rw [verifyBlockSignature, ext.account, ← Option.some.inj hsign]
      exact hverify
  have haccumulated : accumulate (h.chain ++ [b]) = some acc := by
    rw [accumulate_concat, hh.accumulated]
    exact ext.append
  have hmem : ∀ {Q : Block F → Prop}, (∀ b' ∈ h.chain, Q b') → Q b →
      ∀ b' ∈ h.chain ++ [b], Q b' := by
    intro Q hold hnew b' hb'
    rcases List.mem_append.mp hb' with hb' | hb'
    · exact hold b' hb'
    · rw [List.mem_singleton.mp hb']
      exact hnew
  refine ⟨haccumulated, ⟨hmem hh.signed.account ext.account, hmem hh.signed.verified hverified,
    ?_, ?_, ?_⟩, hmem hh.minted ext.minted⟩
  · exact height_concat hh.signed.height (fun hnone => (ext.opens hnone).1)
      fun head hhead => (ext.links head hhead).1
  · intro first hfirst
    cases hchain : h.chain with
    | nil =>
      rw [hchain] at hfirst
      rw [← Option.some.inj hfirst]
      exact (ext.opens (by rw [hchain]; rfl)).2
    | cons genesis rest =>
      rw [hchain] at hfirst
      exact hh.signed.genesis first (by rw [hchain]; exact hfirst)
  · intro head hhead
    rw [List.getLast?_concat] at hhead
    rw [← Option.some.inj hhead]
    exact ⟨acc, haccumulated, ext.root⟩

variable [JsNumber F] {cfg : LedgerConfig} {L : EngineLedger F}

theorem committed_step (hL : ∀ h, L.held.get? x = some h → Committed P x h)
    (hc : OwnerSigned P x c) (h : Held F) (hget : (step P cfg L c).held.get? x = some h) :
    Committed P x h := by
  have moves : Moves P L c x (step P cfg L c) := step_moves c x
  cases moves with
  | kept heq =>
    rw [heq] at hget
    exact hL h hget
  | dropped hnone =>
    rw [hnone] at hget
    cases hget
  | emptied fresh hempty =>
    rw [hempty] at hget
    rw [← Option.some.inj hget]
    exact committed_nil P x
  | spoiled acc before _ signer thrown =>
    -- the owner's key does not throw
    obtain ⟨sig, hsig, _⟩ := hc _ signer _
    rw [thrown] at hsig
    cases hsig
  | extended before hextended ext =>
    rw [hextended] at hget
    rw [← Option.some.inj hget]
    rcases before with hstored | ⟨_, rfl⟩
    · exact ext.committed hc (hL _ hstored)
    · exact ext.committed hc (committed_nil P x)

end Invariant

theorem committed_chain {P : Primitives F} {x : Hex} {L : EngineLedger F}
    (hL : ∀ h, L.held.get? x = some h → Committed P x h) :
    SignedChain P x (L.getAccountChain x) ∧
      ∀ b ∈ L.getAccountChain x, b.type = .nftMint → truthy b.contentRef = true := by
  cases hget : L.held.get? x with
  | none =>
    have hempty := committed_nil P x
    rw [getAccountChain, hget]
    exact ⟨hempty.signed, hempty.minted⟩
  | some h =>
    rw [getAccountChain_of_held hget]
    exact ⟨(hL h hget).signed, (hL h hget).minted⟩

/-! ## The proofs of a committed chain -/

section Proofs

variable {P : Primitives F} {x : Hex} {L : EngineLedger F}

theorem eq_of_hash_eq (hP : CollisionFree P) {chain : List (Block F)}
    (h : SignedChain P x chain) {b b' : Block F} (hb : b ∈ chain) (hb' : b' ∈ chain)
    (hhash : b.hash = b'.hash) : b = b' := by
  obtain ⟨i, hi⟩ := List.mem_iff_getElem?.mp hb
  obtain ⟨j, hj⟩ := List.mem_iff_getElem?.mp hb'
  have hcontent := ((verifyBlock_iff P b).mp (h.verified b hb)).1
  have hcontent' := ((verifyBlock_iff P b').mp (h.verified b' hb')).1
  have hindex : b.index = b'.index :=
    (hP.header_eq_of_hash_eq (hcontent.trans (hhash.trans hcontent'.symm))).2
  rw [h.height i b hi, h.height j b' hj] at hindex
  have hij : i = j := by omega
  rw [hij, hj] at hi
  exact (Option.some.inj hi).symm

theorem Committed.proofsAccepted (hP : CollisionFree P) (policy : QuorumPolicy)
    (hL : ∀ h, L.held.get? x = some h → Committed P x h) : ProofsAccepted P policy x L := by
  intro genesis hgenesis hpolicy
  cases hget : L.held.get? x with
  | none =>
    rw [getAccountChain, hget] at hgenesis
    cases hgenesis
  | some h =>
    have hh := hL h hget
    rw [getAccountChain_of_held hget] at hgenesis ⊢
    have hne : ¬ h.chain.length = 0 := by
      intro hzero
      rw [List.length_eq_zero_iff.mp hzero] at hgenesis
      cases hgenesis
    constructor
    · intro send hsend htype recipient hrecipient
      obtain ⟨proof, hbuilt, hmem, hwanted, haccepted⟩ :=
        hh.signed.proveInChain hgenesis hpolicy (fun b => b.hash = send.hash) hsend (by simp)
      have hblock : proof.block = send :=
        eq_of_hash_eq hP hh.signed hmem hsend (by simpa using hwanted)
      refine ⟨⟨proof.openBlock, proof.headBlock, proof.openInclusionProof, proof.block,
        proof.blockInclusionProof⟩, ?_, ?_⟩
      · rw [buildCounterpartyPacket, hget]
        simp only [if_neg hne, buildPacketFromChain, hbuilt, Option.map_some]
      · rw [hblock] at haccepted
        rcases htype with htype | htype
        · simp [verifyPacket, hblock, htype, hrecipient, haccepted]
        · simp [verifyPacket, hblock, htype, hrecipient, haccepted]
    · intro mint hmint htype tokenId htoken
      obtain ⟨proof, hbuilt, hmem, hwanted, haccepted⟩ :=
        hh.signed.proveInChain hgenesis hpolicy
          (fun b => b.type = .nftMint ∧ b.tokenId = some tokenId) hmint
          (by simp [htype, htoken])
      -- the proof is about the first mint of the token
      obtain ⟨hfirstType, hfirstToken⟩ := of_decide_eq_true hwanted
      have hcontent := hh.minted proof.block hmem hfirstType
      refine ⟨⟨proof.openBlock, proof.headBlock, proof.openInclusionProof, proof.block,
        proof.blockInclusionProof⟩, ?_, ?_⟩
      · rw [buildMintProof, hget]
        simp only [if_neg hne, buildMintProofFromChain, hbuilt, Option.map_some]
      · simp [verifyMintProof, hfirstType, hfirstToken, hcontent, haccepted]

end Proofs

/-- A ledger whose own blocks for `x` are signed by the owner can prove every transfer and every
mint on the chain of `x`, at every time. -/
theorem proofs_accepted [JsNumber F] (P : Primitives F) (cfg : LedgerConfig)
    (hP : CollisionFree P) (policy : QuorumPolicy) (x : Hex) (calls : List (Call F))
    (hcalls : ∀ c ∈ calls, OwnerSigned P x c) :
    Run.Always (step P cfg) (ProofsAccepted P policy x) (new P) calls :=
  Run.always_of_invariant (C := fun _ c => OwnerSigned P x c)
    (I := fun L => ∀ h, L.held.get? x = some h → Committed P x h)
    (fun _ _ hL hc => committed_step hL hc)
    (fun _ hL => Committed.proofsAccepted hP policy hL)
    (fun h hget => by cases hget)
    (Run.stepsMeet_of_mem (fun c hc _ => hcalls c hc) _)

/-- Alice opens her account, mints a token and pays Bob. -/
def mintAndPay : List (Call Rat) :=
  [.registerAccount ⟨"bob", "bob"⟩, .openAccount "alice" "alice" "nullifier" [] false 0,
    .createMintNft "alice" "song" [] "alice" 1, .createSend "alice" "bob" 5 "alice" 2]

theorem ownerSigned_mintAndPay : ∀ c ∈ mintAndPay, OwnerSigned Sample.transparent "alice" c := by
  have hkey : ∀ priv, priv = "alice" → ∀ message, ∃ sig,
      Sample.transparent.sign message priv = some sig ∧
        Sample.transparent.verify sig message "alice" = true := by
    rintro _ rfl message
    exact ⟨_, rfl, Sample.verify_signature message "alice"⟩
  intro c hc priv hsigner
  apply hkey
  simp only [mintAndPay, List.mem_cons, List.not_mem_nil, or_false] at hc
  rcases hc with rfl | rfl | rfl | rfl <;> simp_all [Call.signer, Call.author]

theorem proofs_accepted_mintAndPay :
    ((Run.final (step Sample.transparent Sample.config) (new Sample.transparent)
      mintAndPay).getAccountChain "alice").length = 3 ∧
    Run.Always (step Sample.transparent Sample.config)
      (ProofsAccepted Sample.transparent Sample.config.identityPolicy "alice")
      (new Sample.transparent) mintAndPay :=
  ⟨by decide +kernel, proofs_accepted Sample.transparent Sample.config
    Sample.collisionFree_transparent Sample.config.identityPolicy "alice" mintAndPay
    ownerSigned_mintAndPay⟩

end NeuronWeb.EngineLedger
