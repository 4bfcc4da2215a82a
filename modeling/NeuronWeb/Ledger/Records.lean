/-
  Ledger/Records: what the held chains say, whatever order they arrived in.

  Offers, claims, burns, mints and custody words are each a function of the blocks on the
  chains. `Shown` says that the maps of a ledger record exactly what given chains say, and one
  lemma carries it over the effect of a block.
-/
import NeuronWeb.Foundation.ClaimBook
import NeuronWeb.Ledger.Custody

set_option autoImplicit false

namespace NeuronWeb.EngineLedger

variable {F : Type}

/-! ## Chains -/

/-- The chain of each account. -/
abbrev Chains (F : Type) := Hex → List (Block F)

/-- The chains with `b` behind the chain of its account. -/
def extend (ch : Chains F) (b : Block F) : Chains F :=
  fun x => if b.accountId = x then ch x ++ [b] else ch x

/-- The block is on some chain. -/
def OnChain (ch : Chains F) (b : Block F) : Prop := ∃ x, b ∈ ch x

theorem mem_extend {ch : Chains F} {b b' : Block F} {x : Hex} :
    b' ∈ extend ch b x ↔ b' ∈ ch x ∨ (b' = b ∧ b.accountId = x) := by
  unfold extend
  split
  · rename_i hx
    simp [hx]
  · rename_i hx
    simp [hx]

theorem onChain_extend {ch : Chains F} {b b' : Block F} :
    OnChain (extend ch b) b' ↔ OnChain ch b' ∨ b' = b := by
  simp only [OnChain, mem_extend]
  constructor
  · rintro ⟨x, hold | ⟨hnew, _⟩⟩
    · exact .inl ⟨x, hold⟩
    · exact .inr hnew
  · rintro (⟨x, hold⟩ | hnew)
    · exact ⟨x, .inl hold⟩
    · exact ⟨b.accountId, .inr ⟨hnew, rfl⟩⟩

theorem exists_onChain_extend {ch : Chains F} {b : Block F} {p : Block F → Prop} :
    (∃ b', OnChain (extend ch b) b' ∧ p b') ↔ (∃ b', OnChain ch b' ∧ p b') ∨ p b := by
  simp only [onChain_extend]
  constructor
  · rintro ⟨b', hold | rfl, hp⟩
    · exact .inl ⟨b', hold, hp⟩
    · exact .inr hp
  · rintro (⟨b', hold, hp⟩ | hp)
    · exact ⟨b', .inl hold, hp⟩
    · exact ⟨b, .inr rfl, hp⟩

/-! ## What one block says -/

/-- The offer that a `send` puts up. -/
def sendOffer [JsNumber F] (b : Block F) : Option (UnclaimedSend F) :=
  if b.type = .send then
    match b.recipient, b.amount with
    | some recipient, some amount =>
      if recipient = "" then none
      else some ⟨b.accountId, recipient, JsNumber.ofInt amount⟩
    | _, _ => none
  else none

/-- The send that a `receive` claims. -/
def sendClaim (b : Block F) : Option Hex :=
  if b.type = .receive then b.sourceHash.filter (· ≠ "") else none

/-- The transfer that an `nft-send` puts up. -/
def nftOffer (b : Block F) : Option UnclaimedNft :=
  if b.type = .nftSend then
    match b.tokenId, b.recipient with
    | some tokenId, some recipient =>
      if tokenId = "" ∨ recipient = "" then none else some ⟨tokenId, b.accountId, recipient⟩
    | _, _ => none
  else none

/-- The transfer that an `nft-receive` claims. -/
def nftClaim (b : Block F) : Option Hex :=
  if b.type = .nftReceive ∧ truthy b.tokenId = true then b.sourceHash.filter (· ≠ "") else none

/-- The book of payments. -/
def sendBook (L : EngineLedger F) : ClaimBook Hex (UnclaimedSend F) :=
  ⟨L.unclaimedSends, L.claimedSends⟩

/-- The book of token transfers. -/
def nftBook (L : EngineLedger F) : ClaimBook Hex UnclaimedNft :=
  ⟨L.unclaimedNftTransfers, L.claimedNftTransfers⟩

/-- The maps of the ledger record what the chains `ch` say. -/
structure Shown [JsNumber F] (L : EngineLedger F) (ch : Chains F) : Prop where
  sends : L.sendBook.Shows
    (fun hash s => ∃ b, OnChain ch b ∧ (hash = b.hash ∧ sendOffer b = some s))
    (fun hash => ∃ b, OnChain ch b ∧ sendClaim b = some hash)
  nfts : L.nftBook.Shows
    (fun hash t => ∃ b, OnChain ch b ∧ (hash = b.hash ∧ nftOffer b = some t))
    (fun hash => ∃ b, OnChain ch b ∧ nftClaim b = some hash)
  burned : ∀ tokenId, L.burnedNfts.has tokenId = true ↔
    ∃ b, OnChain ch b ∧ (b.type = .nftBurn ∧ names tokenId b = true)
  minted : ∀ b tokenId, OnChain ch b → b.type = .nftMint → names tokenId b = true →
    L.nftInfo.has tokenId = true
  minter : ∀ tokenId info, L.nftInfo.get? tokenId = some info →
    ∃ b, OnChain ch b ∧ b.type = .nftMint ∧ names tokenId b = true ∧ b.accountId = info.minter
  custody : ∀ tokenId x, L.custodyOf tokenId x = lastWord tokenId (ch x)
  owner : ∀ tokenId, L.OwnedByHolder tokenId

/-! ## The effect of a block on the books -/

theorem nftBook_recordNftCustody (L : EngineLedger F) (tokenId x : Hex) (index : Int)
    (holds : Bool) : (L.recordNftCustody tokenId x index holds).nftBook = L.nftBook := by
  obtain ⟨nftOwner, nftCustody, heq⟩ := recordNftCustody_eq L tokenId x index holds
  rw [heq]
  rfl

theorem nftBook_claimNftTransfer (L : EngineLedger F) (source : Option Hex) :
    (L.claimNftTransfer source).nftBook = L.nftBook.noteClaim (source.filter (· ≠ "")) := by
  unfold claimNftTransfer
  cases source with
  | none => rfl
  | some source =>
    by_cases h : source = ""
    · simp [h, ClaimBook.noteClaim, Option.filter_some]
    · simp [h, ClaimBook.noteClaim, ClaimBook.claim, nftBook, Option.filter_some]

section Books

variable [JsNumber F] (P : Primitives F) (L : EngineLedger F) (b : Block F)

/-- A block puts up at most one payment and claims at most one. -/
theorem sendBook_applyBlock : (applyBlock P L b).sendBook =
    (L.sendBook.noteOffer b.hash (sendOffer b)).noteClaim (sendClaim b) := by
  unfold applyBlock sendOffer sendClaim
  cases htype : b.type
  case send =>
    simp only [if_true, reduceCtorEq, if_false, ClaimBook.noteClaim]
    unfold applySend
    cases hrecipient : b.recipient with
    | none => rfl
    | some recipient =>
      cases hamount : b.amount with
      | none => rfl
      | some amount =>
        by_cases hempty : recipient = ""
        · simp [hempty, ClaimBook.noteOffer]
        · cases hclaimed : L.claimedSends.has b.hash <;>
            simp [hempty, hclaimed, ClaimBook.noteOffer, ClaimBook.offer, sendBook, offerSend]
  case receive =>
    simp only [reduceCtorEq, if_false, if_true, ClaimBook.noteOffer]
    unfold applyReceive
    cases hsource : b.sourceHash with
    | none => rfl
    | some source =>
      by_cases hempty : source = ""
      · simp [hempty, ClaimBook.noteClaim, Option.filter_some]
      · simp [hempty, ClaimBook.noteClaim, ClaimBook.claim, claimSend, sendBook,
          Option.filter_some]
  case update =>
    obtain ⟨_, _, h⟩ := applyUpdate_eq L b
    simp only [h]
    rfl
  case nftMint =>
    obtain ⟨_, _, _, h⟩ := applyNftMint_eq L b
    simp only [h]
    rfl
  case nftSend =>
    obtain ⟨_, _, _, h, _⟩ := applyNftSend_eq L b
    simp only [h]
    rfl
  case nftReceive =>
    obtain ⟨_, _, _, _, h, _⟩ := applyNftReceive_eq L b
    simp only [h]
    rfl
  case nftBurn =>
    obtain ⟨_, _, _, h⟩ := applyNftBurn_eq L b
    simp only [h]
    rfl
  all_goals rfl

/-- A block puts up at most one transfer and claims at most one. -/
theorem nftBook_applyBlock : (applyBlock P L b).nftBook =
    (L.nftBook.noteOffer b.hash (nftOffer b)).noteClaim (nftClaim b) := by
  unfold applyBlock nftOffer nftClaim
  cases htype : b.type
  case nftSend =>
    simp only [if_true, reduceCtorEq, false_and, if_false, ClaimBook.noteClaim]
    unfold applyNftSend
    cases htoken : b.tokenId with
    | none => rfl
    | some tokenId =>
      cases hrecipient : b.recipient with
      | none => rfl
      | some recipient =>
        by_cases hempty : tokenId = "" ∨ recipient = ""
        · simp [hempty, ClaimBook.noteOffer]
        · have hbook := nftBook_recordNftCustody L tokenId b.accountId b.index false
          simp only [nftBook, ClaimBook.mk.injEq] at hbook
          cases hclaimed : L.claimedNftTransfers.has b.hash <;>
            simp [hempty, hclaimed, hbook, ClaimBook.noteOffer, ClaimBook.offer, nftBook]
  case nftReceive =>
    simp only [reduceCtorEq, if_false, true_and, ClaimBook.noteOffer]
    unfold applyNftReceive
    cases htoken : b.tokenId with
    | none => simp [truthy, ClaimBook.noteClaim]
    | some tokenId =>
      by_cases hempty : tokenId = ""
      · simp [hempty, truthy, ClaimBook.noteClaim]
      · simp only [hempty, if_false, nftBook_recordNftCustody, nftBook_claimNftTransfer]
        simp [truthy, hempty]
  case send =>
    obtain ⟨_, h, _⟩ := applySend_eq L b
    simp only [h]
    rfl
  case receive =>
    obtain ⟨_, _, h, _⟩ := applyReceive_eq L b
    simp only [h]
    rfl
  case update =>
    obtain ⟨_, _, h⟩ := applyUpdate_eq L b
    simp only [h]
    rfl
  case nftMint =>
    obtain ⟨_, _, _, h⟩ := applyNftMint_eq L b
    simp only [h]
    rfl
  case nftBurn =>
    obtain ⟨_, _, _, h⟩ := applyNftBurn_eq L b
    simp only [h]
    rfl
  all_goals rfl

end Books

/-! ## The records follow the chains -/

/-- The block is new to the chains and comes behind its account's own blocks. -/
structure Next (ch : Chains F) (b : Block F) : Prop where
  hash_ne : ∀ b', OnChain ch b' → b'.hash ≠ b.hash
  index_lt : ∀ b' ∈ ch b.accountId, b'.index < b.index

theorem shown_new [JsNumber F] (P : Primitives F) : (new P).Shown fun _ => [] where
  sends := ClaimBook.shows_empty.congr (fun _ _ => by simp [OnChain]) (fun _ => by simp [OnChain])
  nfts := ClaimBook.shows_empty.congr (fun _ _ => by simp [OnChain]) (fun _ => by simp [OnChain])
  burned t := by simp [new, OnChain]
  minted b t h := by simp [OnChain] at h
  minter t info h := by simp [new] at h
  custody t x := by simp [new, custodyOf]
  owner t := ⟨fun _ => rfl, fun owner h => by simp [new] at h, fun _ x ⟨index, h⟩ => by
    simp [new, custodyOf] at h⟩

section Effect

variable [JsNumber F] {L L' : EngineLedger F} {ch : Chains F} {b : Block F}

theorem Shown.of_eq (h : L.Shown ch) (hsends : L'.sendBook = L.sendBook)
    (hnfts : L'.nftBook = L.nftBook) (hburned : L'.burnedNfts = L.burnedNfts)
    (hinfo : L'.nftInfo = L.nftInfo) (hcustody : L'.nftCustody = L.nftCustody)
    (howner : L'.nftOwner = L.nftOwner) : L'.Shown ch where
  sends := hsends ▸ h.sends
  nfts := hnfts ▸ h.nfts
  burned t := by rw [hburned, h.burned]
  minted b t hb htype hnames := by
    rw [hinfo]
    exact h.minted b t hb htype hnames
  minter t info hget := by
    rw [hinfo] at hget
    exact h.minter t info hget
  custody t x := by rw [custodyOf, hcustody, ← custodyOf, h.custody]
  owner t := (h.owner t).congr (by rw [hburned]) (by rw [howner]) fun x => by
    rw [custodyOf, hcustody, custodyOf]

/-- The effect of the next block keeps the records in step with the chains. -/
theorem Shown.applyBlock (P : Primitives F) (h : L.Shown ch) (hnext : Next ch b) :
    (applyBlock P L b).Shown (extend ch b) := by
  have newer : ∀ t word, L.custodyOf t b.accountId = some word → word.index < b.index := by
    intro t word hword
    rw [h.custody] at hword
    obtain ⟨b', hb', _, hindex⟩ := exists_of_lastWord hword
    rw [hindex]
    exact hnext.index_lt b' hb'
  have heffect := applyBlock_custodyEffect newer P
  refine ⟨?_, ?_, fun t => ?_, fun b' t hb' htype hnames => ?_, fun t info hget => ?_,
    fun t x => ?_, fun t => heffect.owner t (h.owner t)⟩
  · rw [sendBook_applyBlock]
    have fresh : ∀ w, ¬ ∃ b', OnChain ch b' ∧ (b.hash = b'.hash ∧ sendOffer b' = some w) :=
      fun w ⟨b', hb', hhash, _⟩ => hnext.hash_ne b' hb' hhash.symm
    exact ((h.sends.noteOffer _ fresh).noteClaim _).congr
      (fun _ _ => exists_onChain_extend.symm) (fun _ => exists_onChain_extend.symm)
  · rw [nftBook_applyBlock]
    have fresh : ∀ w, ¬ ∃ b', OnChain ch b' ∧ (b.hash = b'.hash ∧ nftOffer b' = some w) :=
      fun w ⟨b', hb', hhash, _⟩ => hnext.hash_ne b' hb' hhash.symm
    exact ((h.nfts.noteOffer _ fresh).noteClaim _).congr
      (fun _ _ => exists_onChain_extend.symm) (fun _ => exists_onChain_extend.symm)
  · rw [heffect.burned, h.burned, exists_onChain_extend]
  · rw [JsMap.has_iff]
    rw [heffect.info]
    by_cases hmint : b.type = .nftMint ∧ names t b = true
    · exact ⟨_, if_pos hmint⟩
    · rw [if_neg hmint]
      rcases onChain_extend.mp hb' with hold | rfl
      · exact (JsMap.has_iff _ _).mp (h.minted b' t hold htype hnames)
      · exact absurd ⟨htype, hnames⟩ hmint
  · rw [heffect.info] at hget
    split at hget
    · rename_i hmint
      cases hget
      exact ⟨b, onChain_extend.mpr (.inr rfl), hmint.1, hmint.2, rfl⟩
    · obtain ⟨b', hb', hfacts⟩ := h.minter t info hget
      exact ⟨b', onChain_extend.mpr (.inl hb'), hfacts⟩
  · rw [heffect.custody, h.custody]
    unfold extend
    by_cases hx : b.accountId = x
    · subst hx
      rw [if_pos rfl, lastWord_append]
      cases wordOn t b <;> simp
    · rw [if_neg hx]
      cases wordOn t b <;> simp [hx]

end Effect

/-! ## Ledgers that hold nothing else -/

/-- The leaves that the accumulator of a chain has. -/
def leavesOf (chain : List (Block F)) : AccountAccumulator :=
  chain.map fun b => (hexToBytes b.hash).getD []

theorem leavesOf_append {chain : List (Block F)} {b : Block F} {acc : AccountAccumulator}
    (h : (leavesOf chain).append b.hash = some acc) : acc = leavesOf (chain ++ [b]) := by
  unfold AccountAccumulator.append at h
  obtain ⟨bytes, hbytes, rfl⟩ := Option.map_eq_some_iff.mp h
  simp [leavesOf, hbytes]

/-- Everything the ledger records comes from the chains it holds, and nobody is frozen. -/
structure Derived [JsNumber F] (L : EngineLedger F) : Prop where
  shown : L.Shown L.getAccountChain
  indexed : ∀ hash b, L.allBlocks.get? hash = some b →
    OnChain L.getAccountChain b ∧ b.hash = hash
  stored : ∀ x h, L.held.get? x = some h → h.chain ≠ [] ∧ h.acc = leavesOf h.chain
  unfrozen : ∀ x, L.equivocated.has x = false

section Derived

variable [JsNumber F] {L L' : EngineLedger F} {b : Block F}

theorem derived_new (P : Primitives F) : (new P).Derived where
  shown := shown_new P
  indexed hash b h := by simp [new] at h
  stored x h hget := by simp [new] at hget
  unfrozen x := by simp [new]

theorem Derived.of_eq (h : L.Derived) (hheld : L'.held = L.held)
    (hblocks : L'.allBlocks = L.allBlocks) (hfrozen : L'.equivocated = L.equivocated)
    (hshown : L'.Shown L.getAccountChain) : L'.Derived := by
  have hchain : L'.getAccountChain = L.getAccountChain :=
    funext fun x => getAccountChain_congr hheld x
  refine ⟨by rwa [hchain], fun hash b hget => ?_, fun x h' hget => ?_, fun x => ?_⟩
  · rw [hblocks] at hget
    rw [hchain]
    exact h.indexed hash b hget
  · rw [hheld] at hget
    exact h.stored x h' hget
  · rw [hfrozen]
    exact h.unfrozen x

theorem Derived.acc_eq (h : L.Derived) {x : Hex} {stored : Held F}
    (hget : L.held.get? x = some stored) : stored.acc = leavesOf (L.getAccountChain x) := by
  rw [getAccountChain_of_held hget]
  exact (h.stored x stored hget).2

theorem Derived.held_of_nil (h : L.Derived) {x : Hex} (hnil : L.getAccountChain x = []) :
    L.held.get? x = none := by
  cases hget : L.held.get? x with
  | none => rfl
  | some stored =>
    rw [getAccountChain_of_held hget] at hnil
    exact absurd hnil (h.stored x stored hget).1

theorem Derived.append (h : L.Derived) {acc : AccountAccumulator}
    (hacc : (leavesOf (L.getAccountChain b.accountId)).append b.hash = some acc)
    (hheld : ∀ x, L'.held.get? x = if b.accountId = x then
      some ⟨L.getAccountChain b.accountId ++ [b], acc⟩ else L.held.get? x)
    (hblocks : L'.allBlocks = L.allBlocks.set b.hash b)
    (hfrozen : L'.equivocated = L.equivocated)
    (hshown : L'.Shown (extend L.getAccountChain b)) :
    L'.Derived ∧ L'.getAccountChain = extend L.getAccountChain b := by
  have hchain : L'.getAccountChain = extend L.getAccountChain b := by
    funext x
    unfold getAccountChain extend
    rw [hheld]
    split
    · rename_i hx
      subst hx
      rfl
    · rfl
  refine ⟨⟨by rwa [hchain], fun hash b' hget => ?_, fun x h' hget => ?_, fun x => ?_⟩, hchain⟩
  · rw [hchain, onChain_extend]
    rw [hblocks, JsMap.get?_set] at hget
    split at hget
    · rename_i hhash
      cases hget
      exact ⟨.inr rfl, hhash⟩
    · obtain ⟨hon, hhash⟩ := h.indexed hash b' hget
      exact ⟨.inl hon, hhash⟩
  · rw [hheld] at hget
    split at hget
    · cases hget
      exact ⟨by simp, leavesOf_append hacc⟩
    · exact h.stored x h' hget
  · rw [hfrozen]
    exact h.unfrozen x

variable (P : Primitives F) {acc : AccountAccumulator}

theorem Derived.appendOwn (h : L.Derived) (hnext : Next L.getAccountChain b) (stored : Held F)
    (L' : EngineLedger F)
    (hchain : stored.chain = L.getAccountChain b.accountId)
    (hacc : (leavesOf stored.chain).append b.hash = some acc)
    (hL' : L' = (L.hold b.accountId ⟨stored.chain ++ [b], acc⟩).indexBlock b) :
    (applyBlock P L' b).Derived ∧
      (applyBlock P L' b).getAccountChain = extend L.getAccountChain b := by
  subst hL'
  let L' := (L.hold b.accountId ⟨stored.chain ++ [b], acc⟩).indexBlock b
  have hsame := applyBlock_sameChains P L' b
  have hshown : L'.Shown L.getAccountChain := h.shown.of_eq rfl rfl rfl rfl rfl rfl
  rw [hchain] at hacc
  refine h.append hacc (fun x => ?_) hsame.allBlocks hsame.equivocated
    (hshown.applyBlock P hnext)
  rw [hsame.held, ← hchain]
  exact JsMap.get?_set _ _ _ x

/-- A foreign block, appended behind the chain of its account or behind the empty chain
that was stored for it. -/
theorem Derived.appendForeign (h : L.Derived) (hnext : Next L.getAccountChain b)
    (L₀ : EngineLedger F) (hL₀ : L₀ = L ∨ ∃ empty, L₀ = L.hold b.accountId empty)
    (stored : Held F)
    (hchain : stored.chain = L.getAccountChain b.accountId)
    (hacc : (leavesOf stored.chain).append b.hash = some acc) (now : Int) :
    (appendForeign P L₀ stored acc b now).Derived ∧
      (appendForeign P L₀ stored acc b now).getAccountChain = extend L.getAccountChain b := by
  let L' := L₀.hold b.accountId ⟨stored.chain ++ [b], acc⟩
  have hsame := applyBlock_sameChains P L' b
  have hblocks : L₀.allBlocks = L.allBlocks := by
    rcases hL₀ with rfl | ⟨empty, rfl⟩ <;> rfl
  have hfrozen : L₀.equivocated = L.equivocated := by
    rcases hL₀ with rfl | ⟨empty, rfl⟩ <;> rfl
  have hshown : L'.Shown L.getAccountChain := by
    rcases hL₀ with rfl | ⟨empty, rfl⟩ <;> exact h.shown.of_eq rfl rfl rfl rfl rfl rfl
  rw [hchain] at hacc
  refine h.append hacc (fun x => ?_) ?_ ?_
    ((hshown.applyBlock P hnext).of_eq rfl rfl rfl rfl rfl rfl)
  · simp only [EngineLedger.appendForeign, indexBlock]
    rw [hsame.held, ← hchain]
    simp only [L', hold, JsMap.get?_set]
    rcases hL₀ with rfl | ⟨empty, rfl⟩
    · rfl
    · simp only [hold, JsMap.get?_set]
      split <;> rfl
  · simp only [EngineLedger.appendForeign, indexBlock]
    rw [hsame.allBlocks, ← hblocks]
    rfl
  · simp only [EngineLedger.appendForeign, indexBlock]
    rw [hsame.equivocated, ← hfrozen]
    rfl

end Derived

end NeuronWeb.EngineLedger
