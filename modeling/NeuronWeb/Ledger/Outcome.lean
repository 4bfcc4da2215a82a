/-
  Ledger/Outcome: what one call does to the chains, the claims and the offers.

  A call appends one block behind the chain of its account, freezes at most one account,
  resets the ledger, or does none of these and then adds at most an offer.  `StepOutcome`
  says so for all calls at once; invariants of runs are proved by cases on it.
-/
import NeuronWeb.Ledger.Steps

set_option autoImplicit false

namespace NeuronWeb.EngineLedger

variable {F : Type}

/-! ## Appending one block -/

/-- The effect of the block `b` on the claimed sources and on the offers. -/
structure ClaimEffect (b : Block F) (L L' : EngineLedger F) : Prop where
  keepsSends : ∀ hash, L.claimedSends.has hash = true → L'.claimedSends.has hash = true
  keepsNfts : ∀ hash, L.claimedNftTransfers.has hash = true →
    L'.claimedNftTransfers.has hash = true
  claimsSend : b.type = .receive → ∀ source, b.sourceHash = some source → source ≠ "" →
    L'.claimedSends.has source = true
  claimsNft : b.type = .nftReceive → truthy b.tokenId = true → ∀ source,
    b.sourceHash = some source → source ≠ "" → L'.claimedNftTransfers.has source = true
  sends : ∀ hash s, L'.unclaimedSends.get? hash = some s →
    L.unclaimedSends.get? hash = some s ∨ s.fromPub = b.accountId
  /-- An offer left standing is not claimed by the block, and a new one is its own. -/
  nfts : ∀ hash t, L'.unclaimedNftTransfers.get? hash = some t →
    (L.unclaimedNftTransfers.get? hash = some t ∧
        (L'.claimedNftTransfers.has hash = true → L.claimedNftTransfers.has hash = true)) ∨
      (t.fromPub = b.accountId ∧ t.tokenId ≠ "" ∧ L'.claimedNftTransfers.has hash = false)

variable {b : Block F}

theorem claimEffect_of_eq {L L' : EngineLedger F} (hsends : L'.claimedSends = L.claimedSends)
    (hnfts : L'.claimedNftTransfers = L.claimedNftTransfers)
    (hunclaimed : L'.unclaimedSends = L.unclaimedSends)
    (hunclaimedNfts : L'.unclaimedNftTransfers = L.unclaimedNftTransfers)
    (hreceive : b.type ≠ .receive) (hnftReceive : b.type ≠ .nftReceive) :
    ClaimEffect b L L' where
  keepsSends hash h := by rwa [hsends]
  keepsNfts hash h := by rwa [hnfts]
  claimsSend h := absurd h hreceive
  claimsNft h := absurd h hnftReceive
  sends hash s h := .inl (by rwa [hunclaimed] at h)
  nfts hash t h := .inl ⟨by rwa [hunclaimedNfts] at h, fun h => by rwa [hnfts] at h⟩

theorem claimEffect_of_sends {L L' : EngineLedger F} (htype : b.type = .send)
    {unclaimedSends : JsMap Hex (UnclaimedSend F)} (h : L' = { L with unclaimedSends })
    (hsends : ∀ hash s, unclaimedSends.get? hash = some s →
      L.unclaimedSends.get? hash = some s ∨ s.fromPub = b.accountId) : ClaimEffect b L L' := by
  subst h
  exact
    { keepsSends := fun _ h => h
      keepsNfts := fun _ h => h
      claimsSend := fun h => by rw [htype] at h; cases h
      claimsNft := fun h => by rw [htype] at h; cases h
      sends := hsends
      nfts := fun _ _ h => .inl ⟨h, id⟩ }

theorem applyNftSend_claimEffect (L : EngineLedger F) (htype : b.type = .nftSend) :
    ClaimEffect b L (L.applyNftSend b) := by
  obtain ⟨_, _, offers, h, hoffers⟩ := applyNftSend_eq L b
  rw [h]
  exact
    { keepsSends := fun _ h => h
      keepsNfts := fun _ h => h
      claimsSend := fun h => by rw [htype] at h; cases h
      claimsNft := fun h => by rw [htype] at h; cases h
      sends := fun _ _ h => .inl h
      nfts := fun hash t ht => by
        rcases hoffers hash t ht with hold | ⟨_, hfrom, htoken, hclaimed⟩
        · exact .inl ⟨hold, id⟩
        · exact .inr ⟨hfrom, htoken, hclaimed⟩ }

theorem applyNftReceive_claimEffect (L : EngineLedger F)
    (htype : b.type = .nftReceive) : ClaimEffect b L (L.applyNftReceive b) := by
  obtain ⟨_, _, claimed, unclaimed, h, hoffers, hclaimed⟩ := applyNftReceive_eq L b
  rw [h]
  exact
    { keepsSends := fun _ h => h
      keepsNfts := fun hash h => (hclaimed hash).mpr (.inl h)
      claimsSend := fun h => by rw [htype] at h; cases h
      claimsNft := fun _ htoken source hsource hne =>
        (hclaimed source).mpr (.inr ⟨htoken, hsource, hne⟩)
      sends := fun _ _ h => .inl h
      nfts := fun hash t ht => by
        obtain ⟨hget, hnot⟩ := hoffers hash t ht
        exact .inl ⟨hget, fun h => ((hclaimed hash).mp h).resolve_right hnot⟩ }

theorem claimSend_claimEffect (L : EngineLedger F) (htype : b.type = .receive)
    {source : Hex} (hsource : b.sourceHash = some source) :
    ClaimEffect b L (L.claimSend source) where
  keepsSends hash h := JsSet.has_add_of_has source h
  keepsNfts _ h := h
  claimsSend _ source' hsource' _ := by
    rw [hsource] at hsource'
    cases hsource'
    exact JsSet.has_add_self _ _
  claimsNft h := by rw [htype] at h; cases h
  sends hash s h := .inl (JsMap.get?_of_get?_delete h).2
  nfts _ _ h := .inl ⟨h, id⟩

section Append

variable [JsNumber F] (P : Primitives F)

theorem applyBlock_claimEffect (L : EngineLedger F) (b : Block F) :
    ClaimEffect b L (applyBlock P L b) := by
  unfold applyBlock
  cases htype : b.type
  case send =>
    obtain ⟨_, h, hsends⟩ := applySend_eq L b
    exact claimEffect_of_sends htype h fun hash s hs => (hsends hash s hs).imp_right And.right
  case receive =>
    obtain ⟨_, _, h, hunclaimed, hclaimed⟩ := applyReceive_eq L b
    simp only [h]
    exact
      { keepsSends := fun hash h => (hclaimed hash).mpr (.inl h)
        keepsNfts := fun _ h => h
        claimsSend := fun _ source hsource hne => (hclaimed source).mpr (.inr ⟨hsource, hne⟩)
        claimsNft := fun h => by rw [htype] at h; cases h
        sends := fun hash s hs => .inl (hunclaimed hash s hs)
        nfts := fun _ _ h => .inl ⟨h, id⟩ }
  case update =>
    obtain ⟨_, _, h⟩ := applyUpdate_eq L b
    exact claimEffect_of_eq (by simp [h]) (by simp [h]) (by simp [h]) (by simp [h])
      (by simp [htype]) (by simp [htype])
  case nftMint =>
    obtain ⟨_, _, _, h⟩ := applyNftMint_eq L b
    exact claimEffect_of_eq (by simp [h]) (by simp [h]) (by simp [h]) (by simp [h])
      (by simp [htype]) (by simp [htype])
  case nftSend => exact applyNftSend_claimEffect L htype
  case nftReceive => exact applyNftReceive_claimEffect L htype
  case nftBurn =>
    obtain ⟨_, _, _, h⟩ := applyNftBurn_eq L b
    exact claimEffect_of_eq (by simp [h]) (by simp [h]) (by simp [h]) (by simp [h])
      (by simp [htype]) (by simp [htype])
  all_goals exact claimEffect_of_eq rfl rfl rfl rfl (by simp [htype]) (by simp [htype])

variable {P}

theorem Draft.claimEffect {L : EngineLedger F} {pub priv : Hex} {head : Block F} {now : Int}
    {c : Call F} {content : BlockContent F} {effect : Effect F}
    (d : Draft P L pub priv head now c content effect) (L' : EngineLedger F) {b : Block F}
    (hb : b.toBlockContent = content) : ClaimEffect b L' (effect L' b) := by
  cases d
  case send recipientPub amount _ _ _ _ _ _ =>
    refine claimEffect_of_sends (by rw [hb]; rfl) rfl fun hash s hs => ?_
    rw [JsMap.get?_set] at hs
    split at hs
    · cases hs
      exact .inr (by rw [hb]; rfl)
    · exact .inl hs
  case receive => exact claimSend_claimEffect L' (by rw [hb]; rfl) (by rw [hb])
  case update updates _ _ =>
    obtain ⟨_, _, h⟩ := applyAccountUpdate_eq L' pub updates
    exact claimEffect_of_eq (by simp [h]) (by simp [h]) (by simp [h]) (by simp [h])
      (by simp [hb, nextContent]) (by simp [hb, nextContent])
  case nftMint =>
    obtain ⟨_, _, _, h⟩ := applyNftMint_eq L' b
    exact claimEffect_of_eq (by simp [h]) (by simp [h]) (by simp [h]) (by simp [h])
      (by simp [hb, nextContent]) (by simp [hb, nextContent])
  case nftSend => exact applyNftSend_claimEffect L' (by rw [hb]; rfl)
  case nftReceive => exact applyNftReceive_claimEffect L' (by rw [hb]; rfl)
  case nftBurn =>
    obtain ⟨_, _, _, h⟩ := applyNftBurn_eq L' b
    exact claimEffect_of_eq (by simp [h]) (by simp [h]) (by simp [h]) (by simp [h])
      (by simp [hb, nextContent]) (by simp [hb, nextContent])
  all_goals
    exact claimEffect_of_eq rfl rfl rfl rfl (by simp [hb, nextContent])
      (by simp [hb, nextContent])

end Append

/-! ## The outcomes of a call -/

/-- `b` is the new head of its account, and no other chain moves. -/
structure Appends (L L' : EngineLedger F) (b : Block F) : Prop where
  chain : ∀ x, L'.getAccountChain x =
    if b.accountId = x then L.getAccountChain x ++ [b] else L.getAccountChain x
  equivocated : L'.equivocated = L.equivocated
  effect : ClaimEffect b L L'

variable {L L' : EngineLedger F}

theorem Appends.getElem? {b : Block F} (h : Appends L L' b) {x : Hex}
    {i : Nat} {b' : Block F} (hb' : (L'.getAccountChain x)[i]? = some b') :
    (L.getAccountChain x)[i]? = some b' ∨
      (b' = b ∧ x = b.accountId ∧ i = (L.getAccountChain b.accountId).length) := by
  rw [h.chain x] at hb'
  split at hb'
  · rename_i hx
    subst hx
    rw [List.getElem?_append] at hb'
    split at hb'
    · exact .inl hb'
    · rename_i hi
      rw [List.getElem?_singleton] at hb'
      split at hb'
      · exact .inr ⟨(Option.some.inj hb').symm, rfl, by omega⟩
      · cases hb'
  · exact .inl hb'

theorem Appends.mem {b : Block F} (h : Appends L L' b) {x : Hex}
    {b' : Block F} (hb' : b' ∈ L'.getAccountChain x) : b' ∈ L.getAccountChain x ∨ b' = b := by
  obtain ⟨i, hi⟩ := List.mem_iff_getElem?.mp hb'
  rcases h.getElem? hi with hold | ⟨rfl, _⟩
  · exact .inl (List.mem_of_getElem? hold)
  · exact .inr rfl

/-- `x` is not frozen, or the call restores a transfer of `x`. -/
def MayOffer (P : Primitives F) (L : EngineLedger F) (c : Call F) (x : Hex) : Prop :=
  L.equivocated.has x = false ∨
    ∃ block, c = .restoreVerifiedBlock block ∧ block.accountId = x ∧ OffersOnRestore P L block

/-- Nothing is appended, frozen or claimed; a purge may forget a chain, and a transfer of
an account that may offer is put on offer. -/
structure Quiet (P : Primitives F) (L : EngineLedger F) (c : Call F) (L' : EngineLedger F) :
    Prop where
  chain : ∀ x, L'.getAccountChain x <+: L.getAccountChain x
  equivocated : L'.equivocated = L.equivocated
  claimedSends : L'.claimedSends = L.claimedSends
  claimedNftTransfers : L'.claimedNftTransfers = L.claimedNftTransfers
  sends : ∀ hash s, L'.unclaimedSends.get? hash = some s →
    L.unclaimedSends.get? hash = some s ∨ MayOffer P L c s.fromPub
  nfts : ∀ hash t, L'.unclaimedNftTransfers.get? hash = some t →
    L.unclaimedNftTransfers.get? hash = some t ∨
      (MayOffer P L c t.fromPub ∧ t.tokenId ≠ "" ∧ L.claimedNftTransfers.has hash = false)

/-- An account may be frozen, and then its offers are void. -/
structure Freezes (L L' : EngineLedger F) : Prop where
  chain : ∀ x, L'.getAccountChain x = L.getAccountChain x
  claimedSends : L'.claimedSends = L.claimedSends
  claimedNftTransfers : L'.claimedNftTransfers = L.claimedNftTransfers
  sends : ∀ hash s, L'.unclaimedSends.get? hash = some s →
    L.unclaimedSends.get? hash = some s ∧
      (L'.equivocated.has s.fromPub = true → L.equivocated.has s.fromPub = true)
  nfts : ∀ hash t, L'.unclaimedNftTransfers.get? hash = some t →
    L.unclaimedNftTransfers.get? hash = some t ∧
      (L'.equivocated.has t.fromPub = true → L.equivocated.has t.fromPub = true)

/-- Where an appended block comes from, with the guards it has passed. -/
inductive Origin [JsNumber F] (P : Primitives F) (cfg : LedgerConfig) (L : EngineLedger F) :
    Call F → Block F → Prop
  | drafted {c : Call F} {pub priv : Hex} {now : Int} {h : Held F} {head b : Block F}
      {effect : Effect F} (author : c.author = some (pub, priv, now))
      (stored : L.held.get? pub = some h) (last : h.chain.getLast? = some head)
      (draft : Draft P L pub priv head now c b.toBlockContent effect) : Origin P cfg L c b
  | opened {pub priv nullifier : Hex} {attestations : List TypedAttestation} {bond : Bool}
      {now : Int} {b : Block F} (identity : IdentityRegistry)
      (admitted : OpenAdmitted P cfg L pub nullifier attestations identity)
      (account : b.accountId = pub) (type : b.type = .open) :
      Origin P cfg L (.openAccount pub priv nullifier attestations bond now) b
  | genesis {b : Block F} {now : Int} (authentic : Authentic P L b) (opens : OpensChain L b) :
      Origin P cfg L (.addBlock b now) b
  | linked {b : Block F} {now : Int} {h : Held F} {head : Block F} {acc : AccountAccumulator}
      (authentic : Authentic P L b) (links : Links L h head b)
      (checked : checkBlock P L head b = none) (root : RootMatches P h b acc) :
      Origin P cfg L (.addBlock b now) b

/-- The outcomes of a call. -/
inductive StepOutcome [JsNumber F] (P : Primitives F) (cfg : LedgerConfig)
    (L : EngineLedger F) (c : Call F) (L' : EngineLedger F) : Prop
  | quiet (h : Quiet P L c L')
  | appended (b : Block F) (origin : Origin P cfg L c b) (h : Appends L L' b)
  | froze (h : Freezes L L')
  | reset (h : L' = L.reset P)

/-! ## Quiet calls -/

theorem quiet_of_eq {P : Primitives F} {c : Call F}
    (hchain : ∀ x, L'.getAccountChain x <+: L.getAccountChain x)
    (hequivocated : L'.equivocated = L.equivocated) (hclaimed : L'.claimedSends = L.claimedSends)
    (hclaimedNfts : L'.claimedNftTransfers = L.claimedNftTransfers)
    (hsends : L'.unclaimedSends = L.unclaimedSends)
    (hnfts : L'.unclaimedNftTransfers = L.unclaimedNftTransfers) : Quiet P L c L' where
  chain := hchain
  equivocated := hequivocated
  claimedSends := hclaimed
  claimedNftTransfers := hclaimedNfts
  sends hash s h := .inl (by rwa [hsends] at h)
  nfts hash t h := .inl (by rwa [hnfts] at h)

theorem Quiet.refl (P : Primitives F) (L : EngineLedger F) (c : Call F) : Quiet P L c L :=
  quiet_of_eq (fun _ => List.prefix_rfl) rfl rfl rfl rfl rfl

theorem quiet_hold_empty (P : Primitives F) (L : EngineLedger F) (pub : Hex) (c : Call F) :
    Quiet P L c (L.hold pub ⟨[], []⟩) := by
  refine quiet_of_eq (fun x => ?_) rfl rfl rfl rfl rfl
  rw [getAccountChain_hold]
  split
  · exact List.nil_prefix
  · exact List.prefix_rfl

theorem getAccountChain_purgeAccount (L : EngineLedger F) (pub x : Hex) :
    (L.purgeAccount pub).getAccountChain x <+: L.getAccountChain x := by
  unfold getAccountChain purgeAccount
  rw [JsMap.get?_delete]
  split
  · exact List.nil_prefix
  · exact List.prefix_rfl

/-! ## Freezing -/

theorem freezes_refl (L : EngineLedger F) : Freezes L L :=
  ⟨fun _ => rfl, rfl, rfl, fun _ _ h => ⟨h, id⟩, fun _ _ h => ⟨h, id⟩⟩

theorem freezeEquivocator_freezes (L : EngineLedger F) (ev : DoubleSpendEvidence F) :
    Freezes L (L.freezeEquivocator ev).1 := by
  unfold freezeEquivocator
  split
  · exact freezes_refl L
  · refine ⟨fun _ => rfl, rfl, rfl, fun hash s h => ?_, fun hash t h => ?_⟩
    · obtain ⟨hget, hother⟩ := JsMap.get?_of_get?_filter h
      have hne : ev.accountId ≠ s.fromPub := fun h => by simp [h] at hother
      exact ⟨hget, by simp [JsMap.has_set, hne]⟩
    · obtain ⟨hget, hother⟩ := JsMap.get?_of_get?_filter h
      have hne : ev.accountId ≠ t.fromPub := fun h => by simp [h] at hother
      exact ⟨hget, by simp [JsMap.has_set, hne]⟩

theorem applyEvidence_freezes (P : Primitives F) (L : EngineLedger F)
    (ev : DoubleSpendEvidence F) : Freezes L (applyEvidence P L ev).1 := by
  unfold applyEvidence
  split
  · exact freezeEquivocator_freezes L ev
  · exact freezes_refl L

theorem applyEvidenceFromBlocks_freezes (P : Primitives F) (L : EngineLedger F)
    (a b : Block F) : Freezes L (applyEvidenceFromBlocks P L a b).1 := by
  unfold applyEvidenceFromBlocks
  split
  · exact applyEvidence_freezes P L _
  · exact freezes_refl L

theorem flagFork_freezes (L : EngineLedger F) (a b : Block F) : Freezes L (L.flagFork a b) := by
  have hindexed : ∀ L' : EngineLedger F, Freezes L L' → Freezes L (L'.indexBlock b) :=
    fun _ h => ⟨h.chain, h.claimedSends, h.claimedNftTransfers, h.sends, h.nfts⟩
  unfold flagFork flagEquivocation
  refine hindexed _ ?_
  split
  · exact freezeEquivocator_freezes L _
  · exact freezes_refl L

/-! ## Every call -/

section Steps

variable [JsNumber F] (P : Primitives F) (cfg : LedgerConfig) (L : EngineLedger F)

/-- A `create*` call appends its draft or is quiet. -/
theorem CreateOutcome.stepOutcome {P : Primitives F} {L : EngineLedger F} {c : Call F}
    {pub priv : Hex} {now : Int} {r : EngineLedger F × CreateResult F}
    (h : CreateOutcome P L c pub priv now r) (hauthor : c.author = some (pub, priv, now)) :
    StepOutcome P cfg L c r.1 := by
  cases h with
  | refused error => exact .quiet (Quiet.refl P L c)
  | thrown => exact .quiet (Quiet.refl P L c)
  | drafted h head content effect stored last draft =>
    obtain ⟨haccount, _⟩ := draft.header
    rcases appendOwn_cases (P := P) (L := L) h content priv effect with
      ⟨acc, heq⟩ | ⟨acc, block, hcreate, heq⟩
    · rw [heq]
      refine .quiet (quiet_of_eq (fun x => ?_) rfl rfl rfl rfl rfl)
      rw [getAccountChain_hold]
      split
      · rename_i hx
        have hchain : h.chain = L.getAccountChain x := by
          rw [← hx, haccount, getAccountChain_of_held stored]
        exact hchain ▸ List.prefix_rfl
      · exact List.prefix_rfl
    · obtain ⟨rfl, _⟩ := createBlock_eq_some hcreate
      rw [heq]
      let appended := (L.hold block.accountId ⟨h.chain ++ [block], acc⟩).indexBlock block
      have hsame := draft.sameChains appended block
      have heffect := draft.claimEffect appended (b := block) rfl
      refine .appended block (.drafted hauthor stored last draft)
        ⟨fun x => ?_, hsame.equivocated, ?_⟩
      · rw [getAccountChain_congr hsame.held]
        change (L.hold block.accountId ⟨h.chain ++ [block], acc⟩).getAccountChain x = _
        rw [getAccountChain_hold]
        split
        · rename_i hx
          rw [← hx, haccount, getAccountChain_of_held stored]
        · rfl
      · exact ⟨heffect.keepsSends, heffect.keepsNfts, heffect.claimsSend, heffect.claimsNft,
          heffect.sends, heffect.nfts⟩

theorem appendForeign_appends {P : Primitives F} {L L₀ : EngineLedger F} {h : Held F}
    {b : Block F} (acc : AccountAccumulator) (now : Int)
    (hchain : ∀ x, L₀.getAccountChain x = L.getAccountChain x)
    (heq : L₀ = { L with held := L₀.held })
    (hheld : L.getAccountChain b.accountId = h.chain) :
    Appends L (appendForeign P L₀ h acc b now) b := by
  have heffect := applyBlock_claimEffect P (L₀.hold b.accountId ⟨h.chain ++ [b], acc⟩) b
  refine ⟨fun x => ?_, ?_, ?_⟩
  · rw [getAccountChain_appendForeign, hchain]
    split
    · rename_i hx
      rw [← hx, hheld]
    · rfl
  · rw [equivocated_appendForeign, heq]
  · rw [heq] at heffect ⊢
    exact ⟨heffect.keepsSends, heffect.keepsNfts, heffect.claimsSend, heffect.claimsNft,
      heffect.sends, heffect.nfts⟩

theorem addBlock_stepOutcome (block : Block F) (now : Int) :
    StepOutcome P cfg L (.addBlock block now) (addBlock P L block now).1 := by
  have outcome := addBlock_outcome P L block now
  generalize addBlock P L block now = result at outcome
  cases outcome with
  | unchanged r => exact .quiet (Quiet.refl P L _)
  | emptied r authentic opens refused => exact .quiet (quiet_hold_empty P L _ _)
  | forked h existing error authentic forks => exact .froze (flagFork_freezes L existing block)
  | opened acc authentic opens root =>
    have hnone : L.getAccountChain block.accountId = [] := by
      simp [getAccountChain, opens.fresh]
    refine .appended block (.genesis authentic opens)
      (appendForeign_appends acc now (fun x => ?_) rfl hnone)
    rw [getAccountChain_hold]
    split
    · rename_i hx
      rw [← hx, hnone]
    · rfl
  | extended h head acc authentic links checked root =>
    exact .appended block (.linked authentic links checked root)
      (appendForeign_appends acc now (fun _ => rfl) rfl (getAccountChain_of_held links.stored))

theorem openAccount_stepOutcome (pub priv nullifier : Hex)
    (attestations : List TypedAttestation) (bond : Bool) (now : Int) :
    StepOutcome P cfg L (.openAccount pub priv nullifier attestations bond now)
      (openAccount P cfg L pub priv nullifier attestations bond now).1 := by
  have outcome := openAccount_outcome P cfg L pub priv nullifier attestations bond now
  generalize openAccount P cfg L pub priv nullifier attestations bond now = result at outcome
  cases outcome with
  | refused error => exact .quiet (Quiet.refl P L _)
  | thrown identity =>
    exact .quiet (quiet_of_eq (fun _ => List.prefix_rfl) rfl rfl rfl rfl rfl)
  | opened identity shard acc block admitted created =>
    obtain ⟨hcontent, _⟩ := createBlock_eq_some created
    have haccount : block.accountId = pub := by rw [hcontent]
    have htype : block.type = .open := by rw [hcontent]
    have hnone : L.getAccountChain pub = [] := by simp [getAccountChain, admitted.fresh]
    refine .appended block (.opened identity admitted haccount htype) ?_
    -- bonding moves the validator registry only
    obtain ⟨registry, hbond, _⟩ := bondStake_eq
      (({ L with identity }.hold pub ⟨[block], acc⟩).indexBlock block) pub (some MINT)
    have hstate : ∀ b : Bool, ∃ validatorRegistry,
        (if b then ((({ L with identity }.hold pub ⟨[block], acc⟩).indexBlock
          block).bondStake pub (some MINT)).1
        else ({ L with identity }.hold pub ⟨[block], acc⟩).indexBlock block) =
          { ({ L with identity }.hold pub ⟨[block], acc⟩).indexBlock block with
            validatorRegistry } := by
      intro b
      cases b
      · exact ⟨_, rfl⟩
      · exact ⟨registry, hbond⟩
    obtain ⟨validatorRegistry, heq⟩ := hstate bond
    simp only [heq]
    refine ⟨fun x => ?_, rfl, claimEffect_of_eq rfl rfl rfl rfl (by simp [htype])
      (by simp [htype])⟩
    change ({ L with identity }.hold pub ⟨[block], acc⟩).getAccountChain x = _
    rw [getAccountChain_hold, haccount]
    split
    · rename_i hx
      rw [← hx, hnone]
      rfl
    · rfl

/-- What any call can do. -/
theorem step_outcome (c : Call F) : StepOutcome P cfg L c (step P cfg L c) := by
  cases hauthor : c.author with
  | some author =>
    obtain ⟨pub, priv, now⟩ := author
    obtain ⟨r, hstep, outcome⟩ := step_of_author P cfg L hauthor
    rw [hstep]
    exact outcome.stepOutcome cfg hauthor
  | none =>
    have hkept : ∀ L' : EngineLedger F, L'.held = L.held →
        ∀ x, L'.getAccountChain x <+: L.getAccountChain x := fun L' h x =>
      getAccountChain_congr h x ▸ List.prefix_rfl
    cases c
    case addBlock block now => exact addBlock_stepOutcome P cfg L block now
    case openAccount => exact openAccount_stepOutcome P cfg L _ _ _ _ _ _
    case applyEvidence ev => exact .froze (applyEvidence_freezes P L ev)
    case applyEvidenceFromBlocks a b => exact .froze (applyEvidenceFromBlocks_freezes P L a b)
    case reset => exact .reset rfl
    case registerAccount account =>
      obtain ⟨_, _, h⟩ := registerAccount_eq L account
      simp only [step, h]
      exact .quiet (quiet_of_eq (hkept _ rfl) rfl rfl rfl rfl rfl)
    case updateAccountFields pub username =>
      obtain ⟨_, _, h⟩ := updateAccountFields_eq L pub username
      simp only [step, h]
      exact .quiet (quiet_of_eq (hkept _ rfl) rfl rfl rfl rfl rfl)
    case registerVerifiedMint proof tokenId =>
      obtain ⟨_, _, h⟩ := registerVerifiedMint_eq P cfg L proof tokenId
      simp only [step, h]
      exact .quiet (quiet_of_eq (hkept _ rfl) rfl rfl rfl rfl rfl)
    case registerVerifiedSend packet recipientPub =>
      obtain ⟨_, _, _, h, hsends, hnfts⟩ := registerVerifiedSend_eq P cfg L packet recipientPub
      simp only [step, h]
      exact .quiet
        { chain := hkept _ rfl, equivocated := rfl, claimedSends := rfl
          claimedNftTransfers := rfl
          sends := fun hash s hs => (hsends hash s hs).imp_right fun h => .inl h.1
          nfts := fun hash t ht => (hnfts hash t ht).imp_right fun h => ⟨.inl h.1, h.2⟩ }
    case restoreVerifiedBlock block =>
      obtain ⟨_, _, _, _, _, _, h, hsends, hnfts⟩ := restoreVerifiedBlock_eq P L block
      simp only [step, h]
      exact .quiet
        { chain := hkept _ rfl, equivocated := rfl, claimedSends := rfl
          claimedNftTransfers := rfl
          sends := fun hash s hs => (hsends hash s hs).imp_right fun h =>
            .inr ⟨block, rfl, h.2.1.symm, h.1⟩
          nfts := fun hash t ht => (hnfts hash t ht).imp_right fun h =>
            ⟨.inr ⟨block, rfl, h.2.1.symm, h.1⟩, h.2.2⟩ }
    case bondStake pub amount =>
      obtain ⟨_, h, _⟩ := bondStake_eq L pub amount
      simp only [step, h]
      exact .quiet (quiet_of_eq (hkept _ rfl) rfl rfl rfl rfl rfl)
    case applyCommitteeVote vote =>
      exact .quiet (quiet_of_eq (hkept _ rfl) rfl rfl rfl rfl rfl)
    case advanceEpoch betas active =>
      obtain ⟨_, _, _, _, _, h⟩ := advanceEpoch_eq P L betas active
      simp only [step, h]
      exact .quiet (quiet_of_eq (hkept _ rfl) rfl rfl rfl rfl rfl)
    case setDiscoveredProviders records =>
      exact .quiet (quiet_of_eq (hkept _ rfl) rfl rfl rfl rfl rfl)
    case purgeAccount pub =>
      exact .quiet (quiet_of_eq (getAccountChain_purgeAccount L pub) rfl rfl rfl rfl rfl)
    all_goals cases hauthor

end Steps

end NeuronWeb.EngineLedger
