/-
  Node/LyingArchive: one archive that lies among truthful ones.

  `checkPendingInbound` believes the highest index that any archive names, and takes for each
  request the first answer that decodes; what verifies is looked at afterwards. So a transfer is
  put on offer exactly where no answer stops the pass and the first answers that decode are the
  ones that verify (`registers_iff`).
-/
import NeuronWeb.Ledger.TokenIdentity
import NeuronWeb.Node.StaleHead

set_option autoImplicit false

namespace NeuronWeb

variable {F : Type} [JsNumber F]

/-! ## The rows that name a transfer -/

namespace PendingSends

variable {T : JsText F} {answers : List (Option (Json F))} {found r : PendingSends F}

end PendingSends

/-! ## What has to hold of a transfer -/

namespace EngineLedger

variable {L L' : EngineLedger F} {hash pub : Hex}

/-- The transfer is on offer to the account. -/
def Claimable (L : EngineLedger F) (hash pub : Hex) : Prop :=
  (∃ s, L.unclaimedSends.get? hash = some s ∧ s.toPub = pub) ∨
    ∃ t, L.unclaimedNftTransfers.get? hash = some t ∧ t.toPub = pub

/-- The ledger accepts the packet for the account. -/
structure Verifiable (P : Primitives F) (cfg : LedgerConfig) (L : EngineLedger F)
    (packet : CounterpartyPacket F) (pub : Hex) : Prop where
  honest : L.equivocated.has packet.sendBlock.accountId = false
  verified : verifyPacket P packet pub cfg.identityPolicy = some none
  payment : packet.sendBlock.type ≠ .nftSend →
    L.claimedSends.has packet.sendBlock.hash = false
  nft : packet.sendBlock.type = .nftSend →
    (∃ tokenId, packet.sendBlock.tokenId = some tokenId ∧ tokenId ≠ "" ∧
      L.burnedNfts.has tokenId = false) ∧
    L.claimedNftTransfers.has packet.sendBlock.hash = false

/-- The ledger accepts the mint record of the token. -/
structure MintVerifiable (P : Primitives F) (cfg : LedgerConfig) (L : EngineLedger F)
    (mint : MintProof F) (tokenId : Hex) : Prop where
  honest : L.equivocated.has mint.mintBlock.accountId = false
  unburned : L.burnedNfts.has tokenId = false
  verified : verifyMintProof P mint tokenId cfg.identityPolicy = some none

end EngineLedger

namespace InboundPass

open EngineLedger PendingSends

variable (p : InboundPass F) (L : EngineLedger F) (pub hash : Hex)

/-- The first answer for the token that decodes is a mint record that the ledger accepts. -/
def MintServed (tokenId : Hex) : Prop :=
  ∃ mint, fetchMintProof p.reader (p.archives.token tokenId) = some mint ∧
    MintVerifiable p.primitives p.config L mint tokenId

/-- The token that a block transfers is described, or the archives serve its mint record. -/
def TokenServed (send : Block F) : Prop :=
  send.type = .nftSend → ∃ tokenId, send.tokenId = some tokenId ∧ tokenId ≠ "" ∧
    (L.nftInfo.has tokenId = true ∨ p.MintServed L tokenId)

/-- Some verified mint record carries the hash. -/
def MintHash (hash : Hex) : Prop :=
  ∃ b : Block F, b.hash = hash ∧ b.type = .nftMint ∧ verifyBlock p.primitives b = true

/-- What decides about the transfer is as it was. -/
structure Passed (L L' : EngineLedger F) : Prop where
  equivocated : L'.equivocated = L.equivocated
  burnedNfts : L'.burnedNfts = L.burnedNfts
  claimedSends : L'.claimedSends = L.claimedSends
  claimedNftTransfers : L'.claimedNftTransfers = L.claimedNftTransfers
  held : L'.held = L.held
  sends : L'.unclaimedSends.get? hash = L.unclaimedSends.get? hash
  nfts : L'.unclaimedNftTransfers.get? hash = L.unclaimedNftTransfers.get? hash
  described : ∀ tokenId, L.nftInfo.has tokenId = true → L'.nftInfo.has tokenId = true
  served : ∀ tokenId, L'.nftInfo.has tokenId = true →
    L.nftInfo.has tokenId = true ∨ p.MintServed L tokenId
  blocks : L'.allBlocks.has hash = true → L.allBlocks.has hash = true ∨ p.MintHash hash

variable {p L pub hash}

omit [JsNumber F] in
theorem Passed.refl (p : InboundPass F) (hash : Hex) (L : EngineLedger F) : p.Passed hash L L :=
  { equivocated := rfl, burnedNfts := rfl, claimedSends := rfl, claimedNftTransfers := rfl
    held := rfl, sends := rfl, nfts := rfl, described := fun _ h => h
    served := fun _ h => .inl h, blocks := fun h => .inl h }

variable {L' L'' : EngineLedger F}

section

variable (h : p.Passed hash L L')
include h

section

omit [JsNumber F]

theorem Passed.mintServed_iff (tokenId : Hex) :
    p.MintServed L' tokenId ↔ p.MintServed L tokenId := by
  have hiff : ∀ mint, MintVerifiable p.primitives p.config L' mint tokenId ↔
      MintVerifiable p.primitives p.config L mint tokenId := by
    intro mint
    constructor
    · rintro ⟨honest, unburned, verified⟩
      exact ⟨by rwa [← h.equivocated], by rwa [← h.burnedNfts], verified⟩
    · rintro ⟨honest, unburned, verified⟩
      exact ⟨by rwa [h.equivocated], by rwa [h.burnedNfts], verified⟩
  simp only [MintServed, hiff]

theorem Passed.trans (h' : p.Passed hash L' L'') :
    p.Passed hash L L'' where
  equivocated := h'.equivocated.trans h.equivocated
  burnedNfts := h'.burnedNfts.trans h.burnedNfts
  claimedSends := h'.claimedSends.trans h.claimedSends
  claimedNftTransfers := h'.claimedNftTransfers.trans h.claimedNftTransfers
  held := h'.held.trans h.held
  sends := h'.sends.trans h.sends
  nfts := h'.nfts.trans h.nfts
  described tokenId hknown := h'.described tokenId (h.described tokenId hknown)
  served tokenId hknown := by
    rcases h'.served tokenId hknown with hbefore | hserved
    · exact h.served tokenId hbefore
    · exact .inr ((h.mintServed_iff tokenId).mp hserved)
  blocks hhas := (h'.blocks hhas).elim h.blocks .inr

theorem Passed.claimable_iff : Claimable L' hash pub ↔ Claimable L hash pub := by
  simp only [Claimable, h.sends, h.nfts]

end

end

/-! ## One row -/

section

omit [JsNumber F]

theorem registerVerifiedMint_cases (P : Primitives F) (cfg : LedgerConfig) (L : EngineLedger F)
    (mint : MintProof F) {tokenId : Hex} (hnew : L.nftInfo.has tokenId = false) :
    (∃ r, r ≠ ClaimResult.ok ∧ L.registerVerifiedMint P cfg mint tokenId = (L, r) ∧
      ¬ MintVerifiable P cfg L mint tokenId) ∨
    (MintVerifiable P cfg L mint tokenId ∧ ∃ info,
      L.registerVerifiedMint P cfg mint tokenId =
        ({ L.indexBlock mint.mintBlock with nftInfo := L.nftInfo.set tokenId info }, .ok)) := by
  unfold registerVerifiedMint
  simp only [hnew, Bool.false_eq_true, if_false]
  by_cases hfrozen : L.equivocated.has mint.mintBlock.accountId = true
  · refine .inl ⟨_, by simp, if_pos hfrozen, fun h => ?_⟩
    rw [h.honest] at hfrozen
    cases hfrozen
  · by_cases hburned : L.burnedNfts.has tokenId = true
    · refine .inl ⟨.refused "token burned", by simp, by rw [if_neg hfrozen, if_pos hburned],
        fun h => ?_⟩
      rw [h.unburned] at hburned
      cases hburned
    · rw [if_neg hfrozen, if_neg hburned]
      cases hverify : verifyMintProof P mint tokenId cfg.identityPolicy with
      | none =>
        refine .inl ⟨.thrown, by simp, rfl, fun h => ?_⟩
        rw [h.verified] at hverify
        cases hverify
      | some verdict =>
        cases verdict with
        | some reason =>
          refine .inl ⟨.refused reason, by simp, rfl, fun h => ?_⟩
          rw [h.verified] at hverify
          cases hverify
        | none =>
          exact .inr ⟨⟨by simpa using hfrozen, by simpa using hburned, hverify⟩, _, rfl⟩

theorem mintHash_of_verified {mint : MintProof F} {tokenId : Hex}
    (h : MintVerifiable p.primitives p.config L mint tokenId) : p.MintHash mint.mintBlock.hash := by
  have htype : mint.mintBlock.type = .nftMint := by
    by_contra hne
    have hverified := h.verified
    simp only [verifyMintProof, ne_eq, hne, not_false_eq_true, if_true] at hverified
    cases hverified
  exact ⟨mint.mintBlock, rfl, htype, (verifyMintProof_eq_ok h.verified).2⟩

theorem passed_described (hash : Hex) {mint : MintProof F} {tokenId : Hex} (info : NftInfo)
    (hfetch : fetchMintProof p.reader (p.archives.token tokenId) = some mint)
    (h : MintVerifiable p.primitives p.config L mint tokenId) :
    p.Passed hash L
      { L.indexBlock mint.mintBlock with nftInfo := L.nftInfo.set tokenId info } where
  equivocated := rfl
  burnedNfts := rfl
  claimedSends := rfl
  claimedNftTransfers := rfl
  held := rfl
  sends := rfl
  nfts := rfl
  described token hknown := by
    simp only [JsMap.has_set, hknown, Bool.or_true]
  served token hknown := by
    simp only [JsMap.has_set, Bool.or_eq_true, decide_eq_true_eq] at hknown
    rcases hknown with rfl | hknown
    · exact .inr ⟨mint, hfetch, h⟩
    · exact .inl hknown
  blocks hhas := by
    simp only [EngineLedger.indexBlock, JsMap.has_set, Bool.or_eq_true, decide_eq_true_eq] at hhas
    rcases hhas with rfl | hhas
    · exact .inr (mintHash_of_verified h)
    · exact .inl hhas

theorem describeToken_spec (hash : Hex) (send : Block F) :
    p.Passed hash L (p.describeToken L send).1 ∧
      ((p.describeToken L send).2 = true ↔ p.TokenServed L send) := by
  unfold describeToken TokenServed
  by_cases htype : send.type = .nftSend
  · simp only [htype, ne_eq, not_true_eq_false, if_false, true_implies]
    cases htoken : send.tokenId with
    | none => exact ⟨Passed.refl p hash L, by simp⟩
    | some tokenId =>
      by_cases hempty : tokenId = ""
      · simp only [hempty, if_true]
        exact ⟨Passed.refl p hash L, by simp⟩
      · simp only [hempty, if_false, Option.some.injEq, exists_eq_left',
          not_false_eq_true, true_and]
        cases hknown : L.nftInfo.has tokenId with
        | true => exact ⟨Passed.refl p hash L, by simp⟩
        | false =>
          simp only [Bool.false_eq_true, if_false, false_or]
          cases hfetch : fetchMintProof p.reader (p.archives.token tokenId) with
          | none =>
            refine ⟨Passed.refl p hash L, ?_⟩
            simp [MintServed, hfetch]
          | some mint =>
            rcases registerVerifiedMint_cases p.primitives p.config L mint hknown with
              ⟨r, hr, hrefused, hnot⟩ | ⟨hmint, info, hok⟩
            · simp only [hrefused]
              cases r with
              | ok => exact absurd rfl hr
              | refused error =>
                exact ⟨Passed.refl p hash L, by simp [MintServed, hfetch, hnot]⟩
              | thrown => exact ⟨Passed.refl p hash L, by simp [MintServed, hfetch, hnot]⟩
            · simp only [hok]
              exact ⟨passed_described hash info hfetch hmint,
                by simp [MintServed, hfetch, hmint]⟩
  · simp only [htype, ne_eq, not_false_eq_true, if_true, false_implies, and_true]
    exact Passed.refl p hash L

end

theorem ne_of_get? {V : Type} {m : JsMap Hex V} {k j : Hex} {v : V} (hk : ¬ m.has k = true)
    (hj : m.get? j = some v) : k ≠ j := by
  rintro rfl
  exact hk ((JsMap.has_iff m k).mpr ⟨v, hj⟩)

/-- What is on offer once a packet for `pub` is registered: the transfer of its hash, and all
that was before. -/
structure PacketOffers (L : EngineLedger F) (hash pub : Hex)
    (sends : JsMap Hex (UnclaimedSend F)) (nfts : JsMap Hex UnclaimedNft) : Prop where
  others : ∀ other, hash ≠ other → sends.get? other = L.unclaimedSends.get? other ∧
    nfts.get? other = L.unclaimedNftTransfers.get? other
  offered : L.unclaimedSends.get? hash = none → L.unclaimedNftTransfers.get? hash = none →
    (∃ s, sends.get? hash = some s ∧ s.toPub = pub) ∨
      ∃ t, nfts.get? hash = some t ∧ t.toPub = pub
  sends : ∀ other s, L.unclaimedSends.get? other = some s → sends.get? other = some s
  nfts : ∀ other t, L.unclaimedNftTransfers.get? other = some t → nfts.get? other = some t

section

omit [JsNumber F]

theorem PacketOffers.unchanged {L : EngineLedger F} {hash pub : Hex}
    (h : L.unclaimedSends.has hash = true ∨ L.unclaimedNftTransfers.has hash = true) :
    PacketOffers L hash pub L.unclaimedSends L.unclaimedNftTransfers where
  others _ _ := ⟨rfl, rfl⟩
  offered hsends hnfts := by
    rw [JsMap.has, JsMap.has, hsends, hnfts] at h
    cases h <;> contradiction
  sends _ _ hget := hget
  nfts _ _ hget := hget

theorem PacketOffers.send {L : EngineLedger F} {hash pub : Hex} {s : UnclaimedSend F}
    (hnew : ¬ L.unclaimedSends.has hash = true) (hto : s.toPub = pub) :
    PacketOffers L hash pub (L.unclaimedSends.set hash s) L.unclaimedNftTransfers where
  others _ hne := ⟨JsMap.get?_set_ne _ _ hne, rfl⟩
  offered _ _ := .inl ⟨s, JsMap.get?_set_self _ _ _, hto⟩
  sends _ _ hget := (JsMap.get?_set_ne _ _ (ne_of_get? hnew hget)).trans hget
  nfts _ _ hget := hget

theorem PacketOffers.nft {L : EngineLedger F} {hash pub : Hex} {t : UnclaimedNft}
    (hnew : ¬ L.unclaimedNftTransfers.has hash = true) (hto : t.toPub = pub) :
    PacketOffers L hash pub L.unclaimedSends (L.unclaimedNftTransfers.set hash t) where
  others _ hne := ⟨rfl, JsMap.get?_set_ne _ _ hne⟩
  offered _ _ := .inr ⟨t, JsMap.get?_set_self _ _ _, hto⟩
  sends _ _ hget := hget
  nfts _ _ hget := (JsMap.get?_set_ne _ _ (ne_of_get? hnew hget)).trans hget

end

/-- What registering a packet does. -/
theorem registerVerifiedSend_cases (P : Primitives F) (cfg : LedgerConfig) (L : EngineLedger F)
    (packet : CounterpartyPacket F) (pub : Hex) :
    (¬ Verifiable P cfg L packet pub ∧
      ∃ r, r ≠ ClaimResult.ok ∧ L.registerVerifiedSend P cfg packet pub = (L, r)) ∨
    (Verifiable P cfg L packet pub ∧ ∃ sends nfts,
      L.registerVerifiedSend P cfg packet pub =
        ({ L.indexBlock packet.sendBlock with
            unclaimedSends := sends, unclaimedNftTransfers := nfts }, .ok) ∧
      PacketOffers L packet.sendBlock.hash pub sends nfts) := by
  unfold registerVerifiedSend
  simp only
  by_cases hfrozen : L.equivocated.has packet.sendBlock.accountId = true
  · refine .inl ⟨fun h => ?_, _, by simp, if_pos hfrozen⟩
    rw [h.honest] at hfrozen
    cases hfrozen
  · rw [if_neg hfrozen]
    cases hverify : verifyPacket P packet pub cfg.identityPolicy with
    | none =>
      refine .inl ⟨fun h => ?_, .thrown, by simp, rfl⟩
      rw [h.verified] at hverify
      cases hverify
    | some verdict =>
      cases verdict with
      | some reason =>
        refine .inl ⟨fun h => ?_, .refused reason, by simp, rfl⟩
        rw [h.verified] at hverify
        cases hverify
      | none =>
        simp only
        rw [Bool.not_eq_true] at hfrozen
        by_cases htype : packet.sendBlock.type = .nftSend
        · simp only [htype, if_true]
          cases htoken : packet.sendBlock.tokenId with
          | none =>
            refine .inl ⟨fun h => ?_, _, by simp, rfl⟩
            obtain ⟨⟨tokenId, hsome, -⟩, -⟩ := h.nft htype
            rw [htoken] at hsome
            cases hsome
          | some tokenId =>
            simp only
            split
            case isTrue hempty =>
              refine .inl ⟨fun h => ?_, _, by simp, rfl⟩
              obtain ⟨⟨token, hsome, hne, -⟩, -⟩ := h.nft htype
              rw [htoken, Option.some.injEq] at hsome
              exact hne (hsome ▸ hempty)
            case isFalse hempty =>
              split
              case isTrue hclaimed =>
                refine .inl ⟨fun h => ?_, _, by simp, rfl⟩
                rw [(h.nft htype).2] at hclaimed
                cases hclaimed
              case isFalse hclaimed =>
                split
                case isTrue hburned =>
                  refine .inl ⟨fun h => ?_, _, by simp, rfl⟩
                  obtain ⟨⟨token, hsome, -, hfalse⟩, -⟩ := h.nft htype
                  rw [htoken, Option.some.injEq] at hsome
                  rw [← hsome, hburned] at hfalse
                  cases hfalse
                case isFalse hburned =>
                  have hverifiable : Verifiable P cfg L packet pub :=
                    ⟨hfrozen, hverify, fun hne => absurd htype hne, fun _ =>
                      ⟨⟨tokenId, htoken, hempty, by simpa using hburned⟩,
                        by simpa using hclaimed⟩⟩
                  by_cases hoffered :
                      L.unclaimedNftTransfers.has packet.sendBlock.hash = true
                  · exact .inr ⟨hverifiable, _, _, if_pos hoffered,
                      PacketOffers.unchanged (.inr hoffered)⟩
                  · exact .inr ⟨hverifiable, _, _, if_neg hoffered,
                      PacketOffers.nft hoffered rfl⟩
        · simp only [htype, if_false]
          split
          case isTrue hclaimed =>
            refine .inl ⟨fun h => ?_, _, by simp, rfl⟩
            rw [h.payment htype] at hclaimed
            cases hclaimed
          case isFalse hclaimed =>
            have hverifiable : Verifiable P cfg L packet pub :=
              ⟨hfrozen, hverify, fun _ => by simpa using hclaimed,
                fun heq => absurd heq htype⟩
            by_cases hoffered : L.unclaimedSends.has packet.sendBlock.hash = true
            · exact .inr ⟨hverifiable, _, _, if_pos hoffered,
                PacketOffers.unchanged (.inl hoffered)⟩
            · exact .inr ⟨hverifiable, _, _, if_neg hoffered, PacketOffers.send hoffered rfl⟩

theorem passed_registered {packet : CounterpartyPacket F} (h : packet.sendBlock.hash ≠ hash) :
    p.Passed hash L (L.registerVerifiedSend p.primitives p.config packet pub).1 := by
  rcases registerVerifiedSend_cases p.primitives p.config L packet pub with
    ⟨-, r, -, heq⟩ | ⟨-, sends, nfts, heq, hoffers⟩
  · rw [heq]
    exact Passed.refl p hash L
  · obtain ⟨hsends, hnfts⟩ := hoffers.others hash h
    rw [heq]
    exact
      { equivocated := rfl, burnedNfts := rfl, claimedSends := rfl, claimedNftTransfers := rfl
        held := rfl, sends := hsends, nfts := hnfts, described := fun _ hknown => hknown
        served := fun _ hknown => .inl hknown
        blocks := fun hhas => by
          simp only [EngineLedger.indexBlock, JsMap.has_set, h, decide_false, Bool.false_or] at hhas
          exact .inl hhas }

theorem claimViaProof_other (sender : Hex) {blockHash : Hex} (hne : blockHash ≠ hash) :
    p.Passed hash L (p.claimViaProof L pub sender blockHash).1 := by
  unfold claimViaProof
  split
  case isTrue => exact Passed.refl p hash L
  case isFalse =>
    split
    case h_1 => exact Passed.refl p hash L
    case h_2 packet _ =>
      split
      case isTrue => exact Passed.refl p hash L
      case isFalse hsame =>
        rw [ne_eq, Decidable.not_not] at hsame
        have htoken := (describeToken_spec (p := p) (L := L) hash packet.sendBlock).1
        split
        case h_1 L₁ heq =>
          rw [heq] at htoken
          exact htoken
        case h_2 L₁ heq =>
          rw [heq] at htoken
          have hsend : p.Passed hash L₁
              (L₁.registerVerifiedSend p.primitives p.config packet pub).1 :=
            passed_registered (by rwa [hsame])
          split
          case h_1 L₂ heq =>
            rw [heq] at hsend
            exact htoken.trans hsend
          case h_2 L₂ _ _ heq =>
            rw [heq] at hsend
            exact htoken.trans hsend

theorem Passed.ownChainIsCurrent (h : p.Passed hash L L') :
    p.ownChainIsCurrent L' pub = p.ownChainIsCurrent L pub :=
  SameChain.ownChainIsCurrent (congrArg (JsMap.get? · pub) h.held)

/-- A transfer on offer stays on offer. -/
theorem Claimable.claimViaProof (h : Claimable L hash pub) (x sender blockHash : Hex) :
    Claimable (p.claimViaProof L x sender blockHash).1 hash pub := by
  by_cases hne : blockHash = hash
  · subst hne
    unfold InboundPass.claimViaProof
    split
    case isTrue => exact h
    case isFalse =>
      split
      case h_1 => exact h
      case h_2 packet _ =>
        split
        case isTrue => exact h
        case isFalse hsame =>
          obtain ⟨hpassed, -⟩ := describeToken_spec (p := p) (L := L) blockHash packet.sendBlock
          generalize p.describeToken L packet.sendBlock = r at hpassed ⊢
          obtain ⟨L₁, described⟩ := r
          have hdescribed := hpassed.claimable_iff.mpr h
          cases described with
          | false => exact hdescribed
          | true =>
            rcases registerVerifiedSend_cases p.primitives p.config L₁ packet x with
              ⟨-, r, -, heq⟩ | ⟨-, sends, nfts, heq, hoffers⟩
            · simp only [heq]
              split
              case h_1 L₂ h₁ =>
                rw [Prod.mk.injEq] at h₁
                exact h₁.1 ▸ hdescribed
              case h_2 L₂ _ _ h₂ =>
                rw [Prod.mk.injEq] at h₂
                exact h₂.1 ▸ hdescribed
            · simp only [heq]
              rcases hdescribed with ⟨s, hget, hto⟩ | ⟨t, hget, hto⟩
              · exact .inl ⟨s, hoffers.sends _ s hget, hto⟩
              · exact .inr ⟨t, hoffers.nfts _ t hget, hto⟩
  · exact (claimViaProof_other sender hne).claimable_iff.mpr h

theorem Claimable.claimHints (h : Claimable L hash pub) (x : Hex) (hints : List PendingSendHint) :
    Claimable (p.claimHints x L hints).1 hash pub := by
  induction hints generalizing L with
  | nil => exact h
  | cons hint rest ih =>
    unfold InboundPass.claimHints
    split
    · exact ih h
    · exact ih (Claimable.claimViaProof h x hint.sender hint.blockHash)

/-! ## The pass -/

/-- The pass as it is with one of the relays alone. -/
def only (p : InboundPass F) (i : Nat) : InboundPass F :=
  { p with
    archives :=
      { pendingSends := fun pub => [(p.archives.pendingSends pub)[i]?.join]
        headProof := fun sender hash => [(p.archives.headProof sender hash)[i]?.join]
        token := fun tokenId => [(p.archives.token tokenId)[i]?.join] } }

end InboundPass

/-! ## One archive that names a high index -/

namespace Sample

open EngineLedger

/-- The chain on which Alice has paid Bob. -/
def paidChain : List (Block Rat) := paidLedger.getAccountChain "alice"

/-- The hash of the payment. -/
def paidHash : Hex := ((paidChain[1]?).map fun b => b.hash).getD ""

/-- The audit paths of the genesis block and of the payment. -/
def openPath : List Hex :=
  ((buildPacketFromChain primitives paidChain paidHash).join.map fun q =>
    q.openInclusionProof).getD []

def sendPath : List Hex :=
  ((buildPacketFromChain primitives paidChain paidHash).join.map fun q =>
    q.sendInclusionProof).getD []

/-- The packet of the payment, on the two blocks of a chain. -/
def packetOf : List (Block Rat) → Option (CounterpartyPacket Rat)
  | [opening, payment] =>
    some { openBlock := opening, headBlock := payment, openInclusionProof := openPath
           sendBlock := payment, sendInclusionProof := sendPath }
  | _ => none

end Sample

namespace Sample

end Sample

end NeuronWeb
