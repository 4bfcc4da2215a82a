/-
  Ledger/PurgeResync: an account is purged, and its chain is delivered again
  (`ledger/engine-ledger.ts`, `purgeAccount`).

  A purge takes the chain, the profile and the directory entry of an account, and leaves the
  records that the blocks have written elsewhere. When the chain comes again these records judge
  it: a mint is refused for its own record, a burn for its own mark, a settlement for its own
  period, a transfer unless it is claimed or the token is back.
-/
import NeuronWeb.Ledger.Additions
import NeuronWeb.Ledger.PacketCompleteness
import NeuronWeb.Ledger.PeerAcceptance
import NeuronWeb.Ledger.Replay

set_option autoImplicit false

namespace NeuronWeb.EngineLedger

variable {F : Type}

/-! ## Which chains pass -/

/-- The ledger with these blocks indexed. -/
def indexing (L : EngineLedger F) (blocks : List (Block F)) : EngineLedger F :=
  blocks.foldl indexBlock L

def PositiveAmount (b : Block F) : Prop := ∃ amount, b.amount = some amount ∧ 0 < amount

section Condition

variable [JsNumber F] (P : Primitives F) (L : EngineLedger F)

/-- After a purge, the block passes the rule of its type behind the blocks `pre` of its own
account. -/
def PassesAgain (pre : List (Block F)) (b : Block F) : Prop :=
  match b.type with
  | .nftMint | .nftBurn => False
  | .send => PositiveAmount b
  | .receive => PositiveAmount b ∧ ∀ src, (L.indexing pre).sourceBlock b.toBlockContent = some src →
      src.type = .send ∧ src.recipient = some b.accountId ∧ src.amount = b.amount
  | .nftSend => truthy b.tokenId = true ∧ truthy b.recipient = true ∧
      (L.nftOwner.get? (b.tokenId.getD "") = some b.accountId ∨
        L.claimedNftTransfers.has b.hash = true)
  | .nftReceive => truthy b.tokenId = true ∧ truthy b.sourceHash = true ∧
      ∀ src, (L.indexing pre).sourceBlock b.toBlockContent = some src →
        src.type = .nftSend ∧ src.recipient = some b.accountId ∧ src.tokenId = b.tokenId
  | .storageSettle => PositiveAmount b ∧
      ProviderLedger.validate P (ProviderLedger.resume P L.providerLedger b.accountId pre)
        b.toBlockContent = none
  | _ => True

/-- Every block of the chain passes again. -/
def Redeliverable (x : Hex) : Prop :=
  ∀ pre b, pre ++ [b] <+: L.getAccountChain x → PassesAgain P L pre b

end Condition

/-- What `R` shows of the account is what `L` shows of it. -/
structure Restores (x : Hex) (L R : EngineLedger F) : Prop where
  chain : R.getAccountChain x = L.getAccountChain x
  balance : R.getAccountBalance x = L.getAccountBalance x
  holdings : ∀ tokenId, R.nftOwner.get? tokenId = some x ↔ L.nftOwner.get? tokenId = some x
  tokens : R.nftInfo = L.nftInfo
  provider : R.providerLedger.providers.get? x = L.providerLedger.providers.get? x

/-! ## The owners of the tokens -/

section Owners

variable [JsNumber F] {P : Primitives F} {cfg : LedgerConfig} {L : EngineLedger F}

theorem owned_step (h : ∀ t, L.OwnedByHolder t)
    (hbonded : ∀ x, 0 ≤ L.validatorRegistry.bondedOf x) (c : Call F) (t : Hex) :
    (step P cfg L c).OwnedByHolder t := by
  have hfate := step_fate P cfg hbonded c
  generalize step P cfg L c = L' at hfate
  cases hfate with
  | kept chain profiles marks => exact marks.owned h t
  | gained b gains => exact gains.marks.owned h t
  | purged pub heq => exact heq ▸ (h t).congr rfl rfl fun _ => rfl
  | reset heq => exact heq ▸ ((shown_new P).owner t).congr rfl rfl fun _ => rfl

/-- Throughout any run the owner on record of a token is an account whose latest word is that it
holds the token, a burned token has none, and any other one that is held has one. -/
theorem owners_hold (P : Primitives F) (cfg : LedgerConfig) (calls : List (Call F)) :
    Run.Always (step P cfg) (fun L => ∀ t, L.OwnedByHolder t) (new P) calls :=
  Run.always_of_invariant (C := fun _ _ => True)
    (I := fun L : EngineLedger F => (∀ t, L.OwnedByHolder t) ∧
      ∀ x, 0 ≤ L.validatorRegistry.bondedOf x)
    (fun _ c h _ => ⟨owned_step h.1 h.2 c, bonded_step h.2 c⟩) (fun _ h => h.1)
    ⟨(shown_new P).owner, fun _ => le_refl _⟩ (Run.stepsMeet_of_forall (fun _ _ => trivial) _ _)

end Owners

/-! ## What a ledger has of an account -/

/-- The block is in shape behind the blocks `pre` of its account. -/
structure InShape [JsNumber F] (P : Primitives F) (pre : List (Block F)) (b : Block F) :
    Prop where
  opens : pre = [] → b.balance = MINT
  links : ∀ head, pre.getLast? = some head → b.previousHash = head.hash ∧ Shaped head b
  root : ∃ acc, accumulate (pre ++ [b]) = some acc ∧ b.accumulatorRoot = acc.rootHex P

/-- What `L` holds of the account is signed, in shape, marked and folded in. -/
structure Documented [JsNumber F] (P : Primitives F) (x : Hex) (L : EngineLedger F) : Prop where
  committed : ∀ h, L.held.get? x = some h → Committed P x h
  shape : ∀ pre b, pre ++ [b] <+: L.getAccountChain x → InShape P pre b
  marked : ∀ b ∈ L.getAccountChain x, Marked L b
  provider : ProviderLedger.Resumable P L.providerLedger x (L.getAccountChain x)
  owned : ∀ t, L.OwnedByHolder t
  bonded : ∀ y, 0 ≤ L.validatorRegistry.bondedOf y

section Invariant

variable [JsNumber F] {P : Primitives F} {cfg : LedgerConfig} {x : Hex} {L : EngineLedger F}

theorem documented_new (P : Primitives F) (x : Hex) : Documented P x (new P) where
  committed h hget := by cases hget
  shape pre b hpre := by simp [getAccountChain, new] at hpre
  marked b hb := by cases hb
  provider := ProviderLedger.resumable_nil rfl
  owned := (shown_new P).owner
  bonded y := le_refl _

theorem documented_of_forgotten (hchain : L.getAccountChain x = [])
    (hcommitted : ∀ h, L.held.get? x = some h → Committed P x h)
    (hprovider : L.providerLedger.providers.get? x = none)
    (howned : ∀ t, L.OwnedByHolder t)
    (hbonded : ∀ y, 0 ≤ L.validatorRegistry.bondedOf y) : Documented P x L where
  committed := hcommitted
  shape pre b hpre := by
    rw [hchain] at hpre
    simp at hpre
  marked b hb := by
    rw [hchain] at hb
    cases hb
  provider := by
    rw [hchain]
    exact ProviderLedger.resumable_nil hprovider
  owned := howned
  bonded := hbonded

theorem Documented.kept (h : Documented P x L) {L' : EngineLedger F}
    (hchain : L'.getAccountChain x = L.getAccountChain x)
    (hcommitted : ∀ stored, L'.held.get? x = some stored → Committed P x stored)
    (hprofile : ProviderLedger.SameProfile x L'.providerLedger L.providerLedger)
    (hmarks : KeepsMarks L L') (hbonded : ∀ y, 0 ≤ L'.validatorRegistry.bondedOf y) :
    Documented P x L' where
  committed := hcommitted
  shape pre b hpre := by
    rw [hchain] at hpre
    exact h.shape pre b hpre
  marked b hb := by
    rw [hchain] at hb
    exact (h.marked b hb).keeps hmarks
  provider := by
    rw [hchain]
    exact h.provider.congr (committed_chain h.committed).1.account hprofile
  owned := hmarks.owned h.owned
  bonded := hbonded

theorem Documented.gained (h : Documented P x L) {L' : EngineLedger F} {b : Block F}
    (gains : Gains P L L' b) (haccount : b.accountId = x)
    (hcommitted : ∀ stored, L'.held.get? x = some stored → Committed P x stored)
    (hbonded : ∀ y, 0 ≤ L'.validatorRegistry.bondedOf y) : Documented P x L' := by
  subst haccount
  have hchain : L'.getAccountChain b.accountId = L.getAccountChain b.accountId ++ [b] := by
    rw [gains.chain, if_pos rfl]
  refine ⟨hcommitted, fun pre b' hpre => ?_, fun b' hb' => ?_, ?_, gains.marks.owned h.owned,
    hbonded⟩
  · rw [hchain] at hpre
    rcases List.prefix_concat_iff.mp hpre with hall | hold
    · obtain ⟨rfl, hlast⟩ := List.append_inj' hall rfl
      obtain rfl := (List.cons.inj hlast).1
      refine ⟨gains.opens, gains.shaped, ?_⟩
      have hroot := (committed_chain hcommitted).1.root b'
      rw [hchain] at hroot
      exact hroot (List.getLast?_concat ..)
    · exact h.shape pre b' hold
  · rw [hchain] at hb'
    rcases List.mem_append.mp hb' with hold | hnew
    · exact (h.marked b' hold).keeps gains.marks
    · rw [List.mem_singleton.mp hnew]
      exact gains.marked
  · rw [hchain, gains.providers]
    exact h.provider.append (committed_chain h.committed).1.account rfl gains.registered

theorem documented_step (h : Documented P x L) {c : Call F} (hc : OwnerSigned P x c) :
    Documented P x (step P cfg L c) := by
  have hcommitted : ∀ stored, (step P cfg L c).held.get? x = some stored →
      Committed P x stored := fun stored hget => committed_step h.committed hc stored hget
  have hbonded : ∀ y, 0 ≤ (step P cfg L c).validatorRegistry.bondedOf y :=
    fun y => bonded_step h.bonded c y
  have howned : ∀ t, (step P cfg L c).OwnedByHolder t := owned_step h.owned h.bonded c
  have hfate := step_fate P cfg h.bonded c
  generalize step P cfg L c = L' at hcommitted hbonded howned hfate
  cases hfate with
  | kept chain profiles marks => exact h.kept (chain x) hcommitted (profiles x) marks hbonded
  | gained b gains =>
    by_cases hx : b.accountId = x
    · exact h.gained gains hx hcommitted hbonded
    · refine h.kept ?_ hcommitted ?_ gains.marks hbonded
      · rw [gains.chain, if_neg hx]
      · rw [gains.providers]
        exact ProviderLedger.sameProfile_apply_other hx
  | purged pub heq =>
    subst heq
    by_cases hx : pub = x
    · subst hx
      refine documented_of_forgotten ?_ hcommitted (JsMap.get?_delete_self ..)
        howned hbonded
      rw [getAccountChain, purgeAccount, JsMap.get?_delete_self]
      rfl
    · refine h.kept ?_ hcommitted ⟨(JsMap.get?_delete ..).trans (if_neg hx), rfl⟩
        (keepsMarks_of_eq rfl rfl rfl rfl rfl) hbonded
      rw [getAccountChain, purgeAccount, getAccountChain, JsMap.get?_delete, if_neg hx]
  | reset heq =>
    subst heq
    exact documented_of_forgotten rfl hcommitted rfl howned hbonded

end Invariant

/-! ## The way back -/

/-- `R` is the ledger `L` after the purge of `x`, with the blocks `pre` delivered again. -/
structure Redelivered [JsNumber F] (P : Primitives F) (x : Hex) (L : EngineLedger F)
    (pre : List (Block F)) (R : EngineLedger F) : Prop where
  chain : R.getAccountChain x = pre
  stored : ∀ h, R.held.get? x = some h → h.chain ≠ [] ∧ accumulate h.chain = some h.acc
  equivocated : R.equivocated = L.equivocated
  providers : R.providerLedger = ProviderLedger.resume P L.providerLedger x pre
  indexed : R.allBlocks = (L.indexing pre).allBlocks
  tokens : SameTokens L R

section Again

variable [JsNumber F] {P : Primitives F} {x : Hex} {L R : EngineLedger F} {pre : List (Block F)}
  {head b : Block F}

theorem redelivered_purge (P : Primitives F) (x : Hex) (L : EngineLedger F) :
    Redelivered P x L [] (L.purgeAccount x) where
  chain := by
    rw [getAccountChain, purgeAccount, JsMap.get?_delete_self]
    rfl
  stored h hget := by
    rw [purgeAccount, JsMap.get?_delete_self] at hget
    cases hget
  equivocated := rfl
  providers := rfl
  indexed := rfl
  tokens := ⟨rfl, rfl, rfl, rfl, fun _ => rfl⟩

/-! ### The rule of the type -/

section

omit [JsNumber F]

theorem sourceBlock_congr (h : R.allBlocks = L.allBlocks) (b : BlockContent F) :
    R.sourceBlock b = L.sourceBlock b := by
  unfold sourceBlock
  rw [h]

theorem Marked.checkNftMint_ne_none (h : Marked R b) (htype : b.type = .nftMint) :
    R.checkNftMint head.toBlockContent b.toBlockContent ≠ none := by
  intro hcheck
  unfold checkNftMint at hcheck
  split at hcheck
  · cases hcheck
  · split at hcheck
    · cases hcheck
    · next hfields =>
        simp only [Bool.or_eq_true, Bool.not_eq_true', not_or, Bool.not_eq_false] at hfields
        obtain ⟨token, htoken, hne⟩ := (truthy_iff _).mp hfields.1
        have hinfo := h.minted htype token
          (names_iff.mpr ⟨true, wordOn_eq_some.mpr ⟨htoken, hne, by simp [said, htype, hfields.2]⟩⟩)
        simp [htoken, hinfo] at hcheck

theorem Marked.checkNftBurn_ne_none (h : Marked R b) (htype : b.type = .nftBurn)
    (hvoid : ∀ t, R.burnedNfts.has t = true → R.nftOwner.get? t = none) :
    R.checkNftBurn head.toBlockContent b.toBlockContent ≠ none := by
  intro hcheck
  unfold checkNftBurn at hcheck
  split at hcheck
  · cases hcheck
  · split at hcheck
    · cases hcheck
    · next htruthy =>
        rw [Bool.not_eq_true', Bool.not_eq_false] at htruthy
        obtain ⟨token, htoken, hne⟩ := (truthy_iff _).mp htruthy
        have hburned := h.burned htype token
          (names_iff.mpr ⟨false, wordOn_eq_some.mpr ⟨htoken, hne, by simp [said, htype]⟩⟩)
        simp [htoken, hvoid token hburned] at hcheck

end

/-- The rule of the type, asked by a ledger that has the token records of `L` and the provider
ledger resumed up to the block. -/
theorem checkBlock_eq_none_iff_passesAgain (shaped : Shaped head b) (marked : Marked R b)
    (tokens : SameTokens L R)
    (hvoid : ∀ t, R.burnedNfts.has t = true → R.nftOwner.get? t = none)
    (hindexed : R.allBlocks = (L.indexing pre).allBlocks)
    (hproviders : R.providerLedger = ProviderLedger.resume P L.providerLedger b.accountId pre)
    (hregistered : b.type = .storageDeregister → R.providerLedger.isRegistered b.accountId = true) :
    checkBlock P R head b = none ↔ PassesAgain P L pre b := by
  have hsource := sourceBlock_congr hindexed b.toBlockContent
  unfold Shaped at shaped
  unfold checkBlock PassesAgain
  cases htype : b.type <;> simp only [htype] at shaped ⊢
  case update => simp [shaped]
  case send =>
    obtain ⟨amount, hamount, hbalance, hcovered⟩ := shaped
    rw [checkSend_eq_none_iff hamount hbalance (hbalance ▸ hcovered)]
    simp [PositiveAmount, hamount]
  case receive =>
    obtain ⟨amount, hamount, hbalance⟩ := shaped
    simp only [checkReceive, hamount, hbalance, hsource, ne_eq, not_true_eq_false, if_false,
      PositiveAmount, Option.some.injEq, exists_eq_left']
    by_cases hpos : amount ≤ 0
    · simp [hpos]
    · have hlt : 0 < amount := by omega
      rw [if_neg hpos]
      cases (L.indexing pre).sourceBlock b.toBlockContent with
      | none => simp [hlt]
      | some src => simp [hlt, ← not_and_or]
  case nftMint => simp [marked.checkNftMint_ne_none htype]
  case nftBurn => simp [marked.checkNftBurn_ne_none htype hvoid]
  case nftSend =>
    simp only [checkNftSend, shaped, ne_eq, not_true_eq_false, if_false, tokens.owner,
      tokens.claimed]
    cases truthy b.tokenId <;> cases truthy b.recipient <;>
      simp [or_iff_not_imp_left]
  case nftReceive =>
    simp only [checkNftReceive, shaped, hsource, ne_eq, not_true_eq_false, if_false]
    cases truthy b.tokenId <;> cases truthy b.sourceHash <;> simp
    cases (L.indexing pre).sourceBlock b.toBlockContent with
    | none => simp
    | some src => simp [← not_and_or]
  case storageRegister =>
    obtain ⟨hbalance, cap, hcap, hfinite, hle⟩ := shaped
    simp [checkStorage, hbalance, ProviderLedger.validate, htype, hcap, hfinite, hle]
  case storageDeregister =>
    simp [checkStorage, shaped, ProviderLedger.validate, htype, hregistered htype]
  case storageSettle =>
    obtain ⟨amount, hamount, hbalance⟩ := shaped
    simp only [checkStorageSettle, hamount, hbalance, hproviders, ne_eq, not_true_eq_false,
      if_false, PositiveAmount, Option.some.injEq, exists_eq_left']
    by_cases hpos : amount ≤ 0
    · simp [hpos]
    · have hlt : 0 < amount := by omega
      simp [hpos, hlt]

/-! ### One block -/

omit [JsNumber F] in
theorem allBlocks_indexing_append (L : EngineLedger F) (pre : List (Block F)) (b : Block F) :
    (L.indexing (pre ++ [b])).allBlocks = (L.indexing pre).allBlocks.set b.hash b := by
  simp [indexing, List.foldl_append, indexBlock]

theorem Redelivered.appendForeign (h : Redelivered P x L pre R) {R₀ : EngineLedger F}
    (hR₀ : R₀ = R ∨ R₀ = R.hold x ⟨[], []⟩) (haccount : b.accountId = x) {stored : Held F}
    (hchain : stored.chain = pre) {acc : AccountAccumulator}
    (hacc : accumulate (pre ++ [b]) = some acc) (marked : Marked R b)
    (hmint : b.type ≠ .nftMint) (hburn : b.type ≠ .nftBurn) (now : Int) :
    Redelivered P x L (pre ++ [b]) (appendForeign P R₀ stored acc b now) := by
  have hmarked : Marked R₀ b := by
    rcases hR₀ with rfl | rfl
    · exact marked
    · exact ⟨marked.custody, marked.claimed, marked.minted, marked.burned⟩
  have htokens : SameTokens L R₀ := by
    rcases hR₀ with rfl | rfl
    · exact h.tokens
    · exact ⟨h.tokens.owner, h.tokens.custody, h.tokens.info, h.tokens.burned, h.tokens.claimed⟩
  have hsame : R₀.equivocated = R.equivocated ∧ R₀.providerLedger = R.providerLedger ∧
      R₀.allBlocks = R.allBlocks := by
    rcases hR₀ with rfl | rfl <;> exact ⟨rfl, rfl, rfl⟩
  obtain ⟨hequivocated, hproviders, hblocks⟩ := hsame
  refine ⟨?_, fun h' hget => ?_, ?_, ?_, ?_,
    htokens.trans (hmarked.sameTokens_appendForeign hmint hburn stored acc now)⟩
  · rw [getAccountChain_appendForeign, if_pos haccount, hchain]
  · rw [get?_held_appendForeign, if_pos haccount] at hget
    obtain rfl := Option.some.inj hget
    rw [hchain]
    exact ⟨by simp, hacc⟩
  · rw [equivocated_appendForeign, hequivocated, h.equivocated]
  · rw [ProviderLedger.resume_append, ← h.providers, ← hproviders]
    exact providerLedger_applyBlock _ b
  · rw [allBlocks_indexing_append, ← h.indexed, ← hblocks]
    have heffect := applyBlock_sameChains P (R₀.hold b.accountId ⟨stored.chain ++ [b], acc⟩) b
    exact congrArg (JsMap.set · b.hash b) heffect.allBlocks

omit [JsNumber F] in
theorem index_of_prefix {chain : List (Block F)} (signed : SignedChain P x chain)
    (hpre : pre ++ [b] <+: chain) : b.index = pre.length := by
  obtain ⟨rest, rfl⟩ := hpre
  exact signed.height pre.length b (by simp)

/-- The next block is accepted if and only if it passes again. -/
theorem Redelivered.addBlock (h : Redelivered P x L pre R) (hL : Documented P x L)
    (hunfrozen : L.equivocated.has x = false) (hpre : pre ++ [b] <+: L.getAccountChain x)
    (now : Int) :
    (PassesAgain P L pre b ∧ ∃ R', addBlock P R b now = (R', .success) ∧
      Redelivered P x L (pre ++ [b]) R') ∨
    (¬ PassesAgain P L pre b ∧ (EngineLedger.addBlock P R b now).2 ≠ .success) := by
  have hsigned := (committed_chain hL.committed).1
  have hmem : b ∈ L.getAccountChain x := hpre.subset (by simp)
  have haccount : b.accountId = x := hsigned.account b hmem
  have hindex := index_of_prefix hsigned hpre
  have inShape := hL.shape pre b hpre
  obtain ⟨hcontent, hsignature⟩ := (verifyBlock_iff P b).mp (hsigned.verified b hmem)
  have authentic : Authentic P R b :=
    ⟨hcontent, hsignature, by rw [h.equivocated, haccount, hunfrozen]⟩
  have marked : Marked R b := (hL.marked b hmem).keeps h.tokens.keepsMarks
  obtain ⟨acc, hacc, hroot⟩ := inShape.root
  cases hlast : pre.getLast? with
  | none =>
    -- the genesis block, on a ledger that has forgotten the account
    obtain rfl := List.getLast?_eq_none_iff.mp hlast
    obtain ⟨rest, hrest⟩ := hpre
    obtain ⟨htype, hprevious⟩ := hsigned.genesis b (by rw [← hrest]; rfl)
    have fresh : R.held.get? x = none := by
      cases hget : R.held.get? x with
      | none => rfl
      | some stored =>
        have hchain := h.chain
        rw [getAccountChain_of_held hget] at hchain
        exact absurd hchain (h.stored stored hget).1
    have opens : OpensChain R b :=
      ⟨by rw [hindex]; rfl, htype, hprevious, inShape.opens rfl, by rw [haccount, fresh]⟩
    have root : RootMatches P ⟨[], []⟩ b acc := by
      refine ⟨?_, hroot.symm⟩
      rw [accumulate_concat] at hacc
      exact hacc
    refine .inl ⟨by simp [PassesAgain, htype], _, addBlock_opens now authentic opens root, ?_⟩
    exact h.appendForeign (.inr (by rw [haccount])) haccount rfl hacc marked (by simp [htype])
      (by simp [htype]) now
  | some head =>
    obtain ⟨hprevious, shaped⟩ := inShape.links head hlast
    obtain ⟨front, rfl⟩ := List.getLast?_eq_some_iff.mp hlast
    have hhead := index_of_prefix hsigned ((List.prefix_append _ [b]).trans hpre)
    obtain ⟨stored, hstored⟩ : ∃ stored, R.held.get? x = some stored := by
      cases hget : R.held.get? x with
      | none =>
        have hchain := h.chain
        simp [getAccountChain, hget] at hchain
      | some stored => exact ⟨stored, rfl⟩
    have hchain : stored.chain = front ++ [head] := by
      rw [← h.chain, getAccountChain_of_held hstored]
    have links : Links R stored head b := by
      rw [List.length_append, List.length_singleton] at hindex
      exact ⟨by rw [haccount, hstored], by rw [hchain, hlast], by omega, by omega, hprevious⟩
    have root : RootMatches P stored b acc := by
      refine ⟨?_, hroot.symm⟩
      rw [accumulate_concat, ← hchain, (h.stored stored hstored).2] at hacc
      exact hacc
    have hcheck : checkBlock P R head b = none ↔ PassesAgain P L (front ++ [head]) b := by
      refine checkBlock_eq_none_iff_passesAgain shaped marked h.tokens
        (fun t => (h.tokens.keepsMarks.owned hL.owned t).burned) h.indexed
        (by rw [haccount, h.providers]) fun htype => ?_
      rw [haccount, h.providers]
      exact hL.provider.registered _ b hpre htype
    cases hrule : checkBlock P R head b with
    | some error =>
      refine .inr ⟨fun hpasses => ?_, ?_⟩
      · rw [hcheck.mpr hpasses] at hrule
        cases hrule
      · rw [addBlock_refuses now authentic links hrule]
        simp
    | none =>
      have hpasses := hcheck.mp hrule
      refine .inl ⟨hpasses, _, addBlock_extends now authentic links hrule root, ?_⟩
      refine h.appendForeign (.inl rfl) haccount hchain hacc marked ?_ ?_ now
      · intro htype
        simp [PassesAgain, htype] at hpasses
      · intro htype
        simp [PassesAgain, htype] at hpasses

/-! ### The whole chain -/

/-- Deliveries of the rest of the chain: all blocks pass again and are accepted, or one of them
does not and the replay gives up. -/
theorem Redelivered.replay (hL : Documented P x L) (hunfrozen : L.equivocated.has x = false)
    {deliveries : List (Block F × Int)} (h : Redelivered P x L pre R)
    (hrest : pre ++ deliveries.map Prod.fst = L.getAccountChain x) :
    ((∀ pre' b, pre <+: pre' → pre' ++ [b] <+: L.getAccountChain x → PassesAgain P L pre' b) ∧
      ∃ R', replay P R deliveries = some R' ∧ Redelivered P x L (L.getAccountChain x) R') ∨
    (replay P R deliveries = none ∧
      ∃ pre' b, pre' ++ [b] <+: L.getAccountChain x ∧ ¬ PassesAgain P L pre' b) := by
  induction deliveries generalizing pre R with
  | nil =>
    rw [List.map_nil, List.append_nil] at hrest
    refine .inl ⟨fun pre' b hfrom hto => ?_, R, rfl, hrest ▸ h⟩
    have hlong := hfrom.length_le
    have hshort := hto.length_le
    rw [List.length_append, List.length_singleton, ← hrest] at hshort
    omega
  | cons delivery deliveries ih =>
    obtain ⟨b, now⟩ := delivery
    have hassoc : (pre ++ [b]) ++ deliveries.map Prod.fst = L.getAccountChain x := by
      rw [← hrest, List.append_assoc]
      rfl
    have hpre : pre ++ [b] <+: L.getAccountChain x := ⟨_, hassoc⟩
    rcases h.addBlock hL hunfrozen hpre now with ⟨hpasses, R₁, hadd, h₁⟩ | ⟨hfails, hadd⟩
    · have hstep : EngineLedger.replay P R ((b, now) :: deliveries) =
          EngineLedger.replay P R₁ deliveries := by
        rw [EngineLedger.replay, hadd]
      rw [hstep]
      refine (ih h₁ hassoc).imp_left fun hall => ⟨fun pre' b' hfrom hto => ?_, hall.2⟩
      -- either `b` is still to come after `pre'`, or it is `b'` itself
      rcases List.prefix_or_prefix_of_prefix hpre
        ((List.prefix_append pre' [b']).trans hto) with hlater | hnow
      · exact hall.1 pre' b' hlater hto
      · rcases List.prefix_concat_iff.mp hnow with rfl | hback
        · exact hall.1 _ b' List.prefix_rfl hto
        · obtain rfl : pre = pre' := hfrom.eq_of_length_le hback.length_le
          have hsame : pre ++ [b] = pre ++ [b'] :=
            (List.prefix_of_prefix_length_le hpre hto (by simp)).eq_of_length (by simp)
          obtain rfl := (List.cons.inj (List.append_cancel_left hsame)).1
          exact hpasses
    · refine .inr ⟨?_, pre, b, hpre, hfails⟩
      rw [EngineLedger.replay]
      generalize EngineLedger.addBlock P R b now = result at hadd
      obtain ⟨R₁, answer⟩ := result
      cases answer with
      | success => exact absurd rfl hadd
      | failure error => rfl
      | thrown => rfl

theorem Redelivered.restores (hL : Documented P x L)
    (h : Redelivered P x L (L.getAccountChain x) R) : Restores x L R where
  chain := h.chain
  balance := by
    unfold getAccountBalance
    rw [h.equivocated, getAccountHead_eq, getAccountHead_eq, h.chain]
  holdings tokenId := by rw [h.tokens.owner]
  tokens := h.tokens.info
  provider := by rw [h.providers, ← hL.provider.profile]

end Again

/-! ## Purge and delivery -/

section Resync

variable [JsNumber F] {P : Primitives F} {cfg : LedgerConfig} {x : Hex}

theorem documented_final (calls : List (Call F)) (hcalls : ∀ c ∈ calls, OwnerSigned P x c) :
    Documented P x (Run.final (step P cfg) (new P) calls) :=
  Run.invariant_final (I := fun L : EngineLedger F => Documented P x L)
    (C := fun _ c => OwnerSigned P x c) (fun _ _ hL hc => documented_step hL hc)
    (documented_new P x) (Run.stepsMeet_of_mem (fun c hc _ => hcalls c hc) _)

/-- After a purge the blocks of the account, delivered in order, are all accepted and restore what
was purged if and only if each of them passes again. -/
theorem resync_restores_iff (calls : List (Call F)) (hcalls : ∀ c ∈ calls, OwnerSigned P x c)
    {L : EngineLedger F} (hL : L = Run.final (step P cfg) (new P) calls)
    (hunfrozen : L.equivocated.has x = false) (deliveries : List (Block F × Int))
    (hchain : deliveries.map Prod.fst = L.getAccountChain x) :
    (∃ R, replay P (L.purgeAccount x) deliveries = some R ∧ Restores x L R) ↔
      Redeliverable P L x := by
  have documented : Documented P x L := hL ▸ documented_final calls hcalls
  rcases (redelivered_purge P x L).replay documented hunfrozen hchain with
    ⟨hpasses, R, hreplay, hR⟩ | ⟨hnone, pre, b, hpre, hfails⟩
  · exact ⟨fun _ pre b => hpasses pre b List.nil_prefix,
      fun _ => ⟨R, hreplay, hR.restores documented⟩⟩
  · constructor
    · rintro ⟨R, hreplay, -⟩
      rw [hnone] at hreplay
      cases hreplay
    · intro hall
      exact absurd (hall pre b hpre) hfails

/-- A block whose rule asks for nothing that a purge leaves behind. -/
def plain (b : Block F) : Bool :=
  match b.type with
  | .open | .update | .storageRegister | .storageDeregister => true
  | .send => decide (0 < b.amount.getD 0)
  | _ => false

theorem redeliverable_of_plain {L : EngineLedger F}
    (h : ∀ b ∈ L.getAccountChain x, plain b = true) : Redeliverable P L x := by
  intro pre b hpre
  have hplain := h b (hpre.subset (by simp))
  unfold plain at hplain
  unfold PassesAgain
  cases htype : b.type
  case send =>
    cases hamount : b.amount <;> simp_all [PositiveAmount]
  all_goals simp_all

end Resync

/-- Alice opens, serves as a provider and pays Bob. -/
def serveAndPay : List (Call Rat) :=
  [.registerAccount ⟨"bob", "bob"⟩, .openAccount "alice" "alice" "nullifier" [] false 0,
    .createStorageRegister "alice" 10 "alice" none 1, .createSend "alice" "bob" 5 "alice" 2]

theorem resync_restores_serveAndPay :
    let L := Run.final (step Sample.transparent Sample.config) (new Sample.transparent) serveAndPay
    (L.getAccountChain "alice").length = 3 ∧
      ∃ R, replay Sample.transparent (L.purgeAccount "alice")
        ((L.getAccountChain "alice").map fun b => (b, 3)) = some R ∧ Restores "alice" L R := by
  have howner : ∀ c ∈ serveAndPay, OwnerSigned Sample.transparent "alice" c := by
    intro c hc priv hsigner message
    have hpriv : priv = "alice" := by
      simp only [serveAndPay, List.mem_cons, List.not_mem_nil, or_false] at hc
      rcases hc with rfl | rfl | rfl | rfl <;> simp_all [Call.signer, Call.author]
    subst hpriv
    exact ⟨_, rfl, Sample.verify_signature message "alice"⟩
  refine ⟨by decide +kernel, ?_⟩
  refine (resync_restores_iff serveAndPay howner rfl (by decide +kernel) _ ?_).mpr ?_
  · rw [List.map_map]
    exact List.map_id _
  · exact redeliverable_of_plain (by decide +kernel)

/-- A minted token keeps its minter's chain from coming back. -/
theorem purged_mint_refused :
    let L := Run.final (step Sample.transparent Sample.config) (new Sample.transparent) mintAndPay
    (∀ c ∈ mintAndPay, OwnerSigned Sample.transparent "alice" c) ∧
      L.held.has "alice" = true ∧ L.equivocated.has "alice" = false ∧
      ¬ ∃ R, replay Sample.transparent (L.purgeAccount "alice")
        ((L.getAccountChain "alice").map fun b => (b, 3)) = some R ∧ Restores "alice" L R := by
  refine ⟨ownerSigned_mintAndPay, by decide +kernel, by decide +kernel, ?_⟩
  rintro ⟨R, hreplay, -⟩
  have hnone : (replay Sample.transparent
      ((Run.final (step Sample.transparent Sample.config) (new Sample.transparent)
        mintAndPay).purgeAccount "alice")
      (((Run.final (step Sample.transparent Sample.config) (new Sample.transparent)
        mintAndPay).getAccountChain "alice").map fun b => (b, 3))).isNone = true := by
    decide +kernel
  rw [hreplay] at hnone
  cases hnone

end NeuronWeb.EngineLedger
