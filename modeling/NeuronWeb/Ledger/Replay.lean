/-
  Ledger/Replay: a fresh ledger accepts coherent chains in any order.

  A replaying ledger holds a part of every chain and records what these parts say.  The
  next block of any chain passes the checks of `addBlock` then: its own chain is held up
  to it, the source of a claim is the real one where it is held at all, and a token whose
  holder is asked for has one apparent holder or its transfer has been claimed already.
-/
import NeuronWeb.Ledger.Coherence

set_option autoImplicit false

namespace NeuronWeb.EngineLedger

variable {F : Type}

/-- Replay received blocks, giving up when one of them is not accepted. -/
def replay [JsNumber F] (P : Primitives F) (R : EngineLedger F) :
    List (Block F × Int) → Option (EngineLedger F)
  | [] => some R
  | (block, now) :: rest =>
    match addBlock P R block now with
    | (R', .success) => replay P R' rest
    | _ => none

/-! ## Holders -/

section Holders

variable [JsNumber F] {R : EngineLedger F} {tokenId x : Hex}

theorem Derived.names_of_holder (hR : R.Derived) (h : R.Holder tokenId x) :
    ∃ b ∈ R.getAccountChain x, names tokenId b = true := by
  obtain ⟨index, hword⟩ := h
  rw [hR.shown.custody] at hword
  obtain ⟨b, hb, hsays, _⟩ := exists_of_lastWord hword
  exact ⟨b, hb, names_iff.mpr ⟨_, hsays⟩⟩

theorem Derived.owner_eq (hR : R.Derived) (hburned : R.burnedNfts.has tokenId = false)
    (hholder : R.Holder tokenId x) (only : ∀ y, R.Holder tokenId y → y = x) :
    R.nftOwner.get? tokenId = some x := by
  obtain ⟨owner, howner⟩ := (hR.shown.owner tokenId).owned hburned x hholder
  rw [howner, only owner ((hR.shown.owner tokenId).holder owner howner)]

end Holders

/-! ## The checks of the types -/

section Accepts

variable [JsNumber F] {P : Primitives F} {ch : Chains F} {R : EngineLedger F} {b : Block F}

/-- A ledger on its way to the chains `ch`. -/
structure Towards (P : Primitives F) (ch : Chains F) (R : EngineLedger F) : Prop where
  derived : R.Derived
  coherent : Coherent P ch
  below : ∀ x, R.getAccountChain x <+: ch x

theorem Towards.onChain (h : Towards P ch R) {b' : Block F}
    (hb : OnChain R.getAccountChain b') : OnChain ch b' := by
  obtain ⟨x, hx⟩ := hb
  exact ⟨x, (h.below x).subset hx⟩

/-- The block is the next one of its chain. -/
structure Due (P : Primitives F) (ch : Chains F) (R : EngineLedger F) (b : Block F) : Prop
    extends Towards P ch R where
  due : R.getAccountChain b.accountId ++ [b] <+: ch b.accountId

section

variable (h : Due P ch R b)
include h

theorem Due.continues : Continues P b.accountId (R.getAccountChain b.accountId) b :=
  h.coherent.continues _ _ _ h.due

theorem Due.mem : b ∈ ch b.accountId :=
  h.due.subset (by simp)

theorem Due.next (hP : CollisionFree P) : Next R.getAccountChain b :=
  (h.coherent.continues.below h.below).next hP h.continues

theorem Due.sourceBlock (hP : CollisionFree P)
    (htype : b.type = .receive ∨ b.type = .nftReceive) {src : Block F}
    (hsrc : R.sourceBlock b.toBlockContent = some src) : Sources src b := by
  obtain ⟨src', hsrc', hsources⟩ := h.coherent.sourced b ⟨_, h.mem⟩ htype
  unfold EngineLedger.sourceBlock at hsrc
  rw [hsources.named] at hsrc
  simp only at hsrc
  split at hsrc
  · cases hsrc
  · obtain ⟨hon, hhash⟩ := h.derived.indexed _ _ hsrc
    rw [h.coherent.continues.eq_of_hash hP (h.onChain hon) hsrc' hhash]
    exact hsources

theorem Due.unminted (hP : CollisionFree P) (htype : b.type = .nftMint)
    {tokenId : Hex} (hnames : names tokenId b = true) :
    R.nftInfo.has tokenId = false ∧ R.burnedNfts.has tokenId = false := by
  constructor
  · rw [Bool.eq_false_iff]
    intro hinfo
    obtain ⟨info, hget⟩ := (JsMap.has_iff _ _).mp hinfo
    obtain ⟨mint, hon, hmint, hnames', _⟩ := h.derived.shown.minter tokenId info hget
    have hsame : mint = b := h.coherent.mint_unique hP (h.onChain hon) ⟨_, h.mem⟩ hmint htype
      hnames' hnames
    exact (h.next hP).hash_ne mint hon (by rw [hsame])
  · rw [Bool.eq_false_iff]
    intro hburned
    obtain ⟨burn, ⟨x, hx⟩, hburn, hnames'⟩ := (h.derived.shown.burned tokenId).mp hburned
    have hmem : burn ∈ ch x := (h.below x).subset hx
    obtain ⟨minter, honly⟩ :=
      (h.coherent.path tokenId).home_of_burn ⟨x, hmem⟩ hburn hnames'
    -- the burn would stand on the minter's own chain, before the mint
    have haccount : x = b.accountId := by
      rw [honly x burn hmem hnames', honly b.accountId b h.mem hnames]
    obtain ⟨_, _, hfresh⟩ := h.continues.mint htype hnames
    rw [hfresh burn (haccount ▸ hx)] at hnames'
    cases hnames'

/-- Whoever is about to part with a token owns it, or its transfer is claimed already. -/
theorem Due.owner_or_claimed (htype : b.type = .nftSend ∨ b.type = .nftBurn) {tokenId : Hex}
    (hnames : names tokenId b = true) (hpart : MayPart tokenId (R.getAccountChain b.accountId)) :
    R.nftOwner.get? tokenId = some b.accountId ∨
      (b.type = .nftSend ∧ R.claimedNftTransfers.has b.hash = true) := by
  have hholder : R.Holder tokenId b.accountId := by
    obtain ⟨index, hword⟩ := hpart.holds
    exact ⟨index, by rw [h.derived.shown.custody, hword]⟩
  have hunburned : R.burnedNfts.has tokenId = false := by
    rw [Bool.eq_false_iff]
    intro hburned
    obtain ⟨burn, ⟨x, hx⟩, hburn, hnames'⟩ := (h.derived.shown.burned tokenId).mp hburned
    have hmem : burn ∈ ch x := (h.below x).subset hx
    obtain ⟨minter, honly⟩ :=
      (h.coherent.path tokenId).home_of_burn ⟨x, hmem⟩ hburn hnames'
    have haccount : x = b.accountId := by
      rw [honly x burn hmem hnames', honly b.accountId b h.mem hnames]
    rw [hpart.unburned burn (haccount ▸ hx) hburn] at hnames'
    cases hnames'
  cases h.coherent.path tokenId with
  | home minter others =>
    refine .inl (h.derived.owner_eq hunburned hholder fun y hy => ?_)
    obtain ⟨b', hb', hn⟩ := h.derived.names_of_holder hy
    rw [eq_of_names_home others ((h.below y).subset hb') hn,
      eq_of_names_home others h.mem hnames]
  | passed minter receiver mint send receive home away others mint_type send_type
      receive_type claims =>
      -- only the minter's transfer is of one of the two types
      have hsend : b = send ∧ b.accountId = minter := by
        rcases eq_of_names_passed home away others h.mem hnames with
          ⟨haccount, rfl | rfl⟩ | ⟨_, rfl⟩
        · simp [mint_type] at htype
        · exact ⟨rfl, haccount⟩
        · simp [receive_type] at htype
      obtain ⟨rfl, haccount⟩ := hsend
      by_cases hreceived : receive ∈ R.getAccountChain receiver
      · exact .inr ⟨send_type, (h.derived.shown.nfts.has_claimed b.hash).mpr
          ⟨receive, ⟨receiver, hreceived⟩, claims⟩⟩
      · refine .inl (h.derived.owner_eq hunburned hholder fun y hy => ?_)
        obtain ⟨b', hb', hn⟩ := h.derived.names_of_holder hy
        rcases eq_of_names_passed home away others ((h.below y).subset hb') hn with
          ⟨hy', _⟩ | ⟨hy', rfl⟩
        · rw [hy', haccount]
        · exact absurd (hy' ▸ hb') hreceived

/-- The next block of a chain passes the rule of its type. -/
theorem Due.checkBlock_eq_none (hP : CollisionFree P) {head : Block F}
    (hlast : (R.getAccountChain b.accountId).getLast? = some head) :
    checkBlock P R head b = none := by
  have hrule := (h.continues.rule head hlast).2
  unfold OwnRule at hrule
  unfold checkBlock
  cases htype : b.type <;> simp only [htype] at hrule ⊢
  case update => simp [hrule]
  case send =>
    obtain ⟨amount, hamount, hpos, _, hbalance, hnonneg⟩ := hrule
    have hnot : ¬ amount ≤ 0 := by omega
    have hnot' : ¬ (b.balance < 0 ∨ b.balance ≠ head.balance - amount) := by omega
    simp only [checkSend, hamount]
    rw [if_neg hnot, if_neg hnot']
  case receive =>
    obtain ⟨amount, hamount, hpos, hbalance⟩ := hrule
    have hnot : ¬ amount ≤ 0 := by omega
    simp only [checkReceive, hamount]
    rw [if_neg hnot, if_neg (by simp [hbalance])]
    cases hsrc : R.sourceBlock b.toBlockContent with
    | none => rfl
    | some src =>
      have hsources := h.sourceBlock hP (.inl htype) hsrc
      rcases hsources.fits with ⟨_, hsend, hsame⟩ | ⟨hother, _⟩
      · simp [hsend, hsources.recipient, hsame, hamount]
      · rw [htype] at hother
        cases hother
  case nftMint =>
    obtain ⟨hbalance, contentRef, hcontent, hne, htoken, _⟩ := hrule
    have hnames : names (nftTokenId P b.accountId b.index contentRef) b = true :=
      names_iff.mpr ⟨true, wordOn_eq_some.mpr ⟨htoken, hP.hashHex_ne_empty _,
        by simp [said, htype, truthy, hcontent, hne]⟩⟩
    obtain ⟨hinfo, hburned⟩ := h.unminted hP htype hnames
    have hid : nftTokenId P b.accountId b.index contentRef ≠ "" := hP.hashHex_ne_empty _
    simp [checkNftMint, hbalance, htoken, hcontent, truthy, hne, hid, hinfo, hburned]
  case nftSend =>
    obtain ⟨hbalance, hrecipient, tokenId, htoken, hne, hpart⟩ := hrule
    have hnames : names tokenId b = true :=
      names_iff.mpr ⟨false, wordOn_eq_some.mpr ⟨htoken, hne, by simp [said, htype, hrecipient]⟩⟩
    have htruthy : truthy (some tokenId) = true := by simp [truthy, hne]
    rcases h.owner_or_claimed (.inl htype) hnames hpart with howner | ⟨_, hclaimed⟩
    · simp [checkNftSend, hbalance, htoken, htruthy, hrecipient, howner]
    · simp [checkNftSend, hbalance, htoken, htruthy, hrecipient, hclaimed]
  case nftReceive =>
    obtain ⟨hbalance, htoken, hsource⟩ := hrule
    simp only [checkNftReceive, hbalance, htoken, hsource, ne_eq, not_true_eq_false, if_false,
      Bool.not_true, Bool.or_self, Bool.false_eq_true]
    cases hsrc : R.sourceBlock b.toBlockContent with
    | none => rfl
    | some src =>
      have hsources := h.sourceBlock hP (.inr htype) hsrc
      rcases hsources.fits with ⟨hother, _⟩ | ⟨_, hsend, hsame⟩
      · rw [htype] at hother
        cases hother
      · simp [hsend, hsources.recipient, hsame]
  case nftBurn =>
    obtain ⟨hbalance, tokenId, htoken, hne, hpart⟩ := hrule
    have hnames : names tokenId b = true :=
      names_iff.mpr ⟨false, wordOn_eq_some.mpr ⟨htoken, hne, by simp [said, htype]⟩⟩
    rcases h.owner_or_claimed (.inr htype) hnames hpart with howner | ⟨hother, _⟩
    · simp [checkNftBurn, hbalance, htoken, truthy, hne, howner]
    · rw [htype] at hother
      cases hother

/-! ## One block -/

theorem Due.rootMatches (stored : Held F) (hchain : stored.chain = R.getAccountChain b.accountId)
    (hacc : stored.acc = leavesOf stored.chain) :
    ∃ acc, RootMatches P stored b acc ∧ (leavesOf stored.chain).append b.hash = some acc := by
  have hcontent := ((verifyBlock_iff P b).mp h.continues.verified).1
  have happend := append_computeContentHash P b.toBlockContent (leavesOf stored.chain)
  rw [hcontent] at happend
  refine ⟨_, ⟨by rw [hacc]; exact happend, ?_⟩, happend⟩
  rw [h.continues.root, leavesOf_append happend, hchain]

/-- The next block of a chain is accepted, and the records stay in step. -/
theorem Due.addBlock (hP : CollisionFree P) (now : Int) :
    ∃ R', addBlock P R b now = (R', .success) ∧ R'.Derived ∧
      R'.getAccountChain = extend R.getAccountChain b := by
  have hnext := h.next hP
  obtain ⟨hcontent, hsignature⟩ := (verifyBlock_iff P b).mp h.continues.verified
  have authentic : Authentic P R b := ⟨hcontent, hsignature, h.derived.unfrozen _⟩
  cases hlast : (R.getAccountChain b.accountId).getLast? with
  | none =>
    have hnil := List.getLast?_eq_none_iff.mp hlast
    obtain ⟨htype, hprev, hbalance⟩ := h.continues.genesis hnil
    have hheld := h.derived.held_of_nil hnil
    have hindex : b.index = 0 := by
      rw [h.continues.index, hnil]
      rfl
    obtain ⟨acc, root, happend⟩ := h.rootMatches ⟨[], []⟩ hnil.symm rfl
    obtain ⟨hderived, hchains⟩ := h.derived.appendForeign P hnext
      (R.hold b.accountId ⟨[], []⟩) (.inr ⟨_, rfl⟩) ⟨[], []⟩ hnil.symm
      happend now
    refine ⟨_, ?_, hderived, hchains⟩
    have opens : OpensChain R b := ⟨hindex, htype, hprev, hbalance, hheld⟩
    exact addBlock_opens now authentic opens root
  | some head =>
    obtain ⟨stored, hheld⟩ : ∃ stored, R.held.get? b.accountId = some stored := by
      cases hget : R.held.get? b.accountId with
      | none => simp [getAccountChain, hget] at hlast
      | some stored => exact ⟨stored, rfl⟩
    have hchain := (getAccountChain_of_held hheld).symm
    have hacc := (h.derived.stored _ _ hheld).2
    obtain ⟨acc, root, happend⟩ := h.rootMatches stored hchain hacc
    obtain ⟨front, hfront⟩ := List.getLast?_eq_some_iff.mp hlast
    have hhead := (h.coherent.continues.below h.below b.accountId front head
      (hfront ▸ List.prefix_rfl)).index
    have hindex := h.continues.index
    rw [hfront, List.length_append, List.length_singleton] at hindex
    have links : Links R stored head b :=
      ⟨hheld, hchain ▸ hlast, by omega, by omega, (h.continues.rule head hlast).1⟩
    obtain ⟨hderived, hchains⟩ :=
      h.derived.appendForeign P hnext R (.inl rfl) stored hchain happend now
    exact ⟨_, addBlock_extends now authentic links (h.checkBlock_eq_none hP hlast) root,
      hderived, hchains⟩

end

/-! ## All blocks -/

/-- The blocks of one account, in the order of the list. -/
def blocksOf (blocks : List (Block F × Int)) (x : Hex) : List (Block F) :=
  (blocks.map Prod.fst).filter fun b => b.accountId = x

theorem Towards.replay (h : Towards P ch R) (hP : CollisionFree P)
    {blocks : List (Block F × Int)}
    (hblocks : ∀ x, R.getAccountChain x ++ blocksOf blocks x = ch x) :
    ∃ R', replay P R blocks = some R' ∧ R'.Derived ∧ R'.getAccountChain = ch := by
  induction blocks generalizing R with
  | nil => exact ⟨R, rfl, h.derived, funext fun x => by simpa [blocksOf] using hblocks x⟩
  | cons entry rest ih =>
    obtain ⟨b, now⟩ := entry
    have hfirst : ∀ x, blocksOf ((b, now) :: rest) x =
        if b.accountId = x then b :: blocksOf rest x else blocksOf rest x := by
      intro x
      by_cases hx : b.accountId = x <;> simp [blocksOf, hx]
    have hdue : Due P ch R b := by
      refine ⟨h, ⟨blocksOf rest b.accountId, ?_⟩⟩
      rw [← hblocks b.accountId, hfirst, if_pos rfl, List.append_assoc]
      rfl
    obtain ⟨R', hadd, hderived, hchains⟩ := hdue.addBlock hP now
    have hrest : ∀ x, R'.getAccountChain x ++ blocksOf rest x = ch x := by
      intro x
      rw [hchains, ← hblocks x, hfirst]
      unfold extend
      split
      · rw [List.append_assoc]
        rfl
      · rfl
    obtain ⟨R'', hreplay, hfacts⟩ :=
      ih ⟨hderived, h.coherent, fun x => ⟨_, hrest x⟩⟩ hrest
    refine ⟨R'', ?_, hfacts⟩
    simp only [EngineLedger.replay, hadd]
    exact hreplay

end Accepts

/-! ## Equal values -/

/-- The two ledgers agree on balances, offers, owners and burns. -/
structure SameValue (L R : EngineLedger F) : Prop where
  balance : ∀ pub, L.getAccountBalance pub = R.getAccountBalance pub
  sends : ∀ hash, L.unclaimedSends.get? hash = R.unclaimedSends.get? hash
  owner : ∀ tokenId, L.nftOwner.get? tokenId = R.nftOwner.get? tokenId
  burned : ∀ tokenId, L.burnedNfts.has tokenId = R.burnedNfts.has tokenId
  nfts : ∀ hash, L.unclaimedNftTransfers.get? hash = R.unclaimedNftTransfers.get? hash

section Values

variable [JsNumber F] {P : Primitives F} {L R : EngineLedger F}

theorem Derived.holder_unique (hL : L.Derived) {tokenId : Hex}
    (hpath : TokenPath tokenId L.getAccountChain) {x y : Hex} (hx : L.Holder tokenId x)
    (hy : L.Holder tokenId y) : x = y := by
  obtain ⟨b, hb, hnames⟩ := hL.names_of_holder hx
  obtain ⟨b', hb', hnames'⟩ := hL.names_of_holder hy
  cases hpath with
  | home minter others =>
    rw [eq_of_names_home others hb hnames, eq_of_names_home others hb' hnames']
  | passed minter receiver mint send receive home away others mint_type send_type
      receive_type claims =>
      -- the minter's last word is its transfer
      have hgave : ¬ L.Holder tokenId minter := by
        rintro ⟨index, hword⟩
        obtain ⟨index', hgone⟩ := lastWord_of_passed home send_type
        rw [hL.shown.custody, hgone] at hword
        cases hword
      have hreceiver : ∀ z, L.Holder tokenId z → ∀ c ∈ L.getAccountChain z,
          names tokenId c = true → z = receiver := by
        intro z hz c hc hn
        rcases eq_of_names_passed home away others hc hn with ⟨rfl, _⟩ | ⟨hz', _⟩
        · exact absurd hz hgave
        · exact hz'
      rw [hreceiver x hx b hb hnames, hreceiver y hy b' hb' hnames']

theorem Derived.sameValue (hL : L.Derived) (hR : R.Derived)
    (hchains : R.getAccountChain = L.getAccountChain)
    (hpath : ∀ tokenId, TokenPath tokenId L.getAccountChain) : SameValue L R := by
  have hR' : R.Shown L.getAccountChain := hchains ▸ hR.shown
  have hburned : ∀ t, L.burnedNfts.has t = R.burnedNfts.has t := by
    intro t
    rw [Bool.eq_iff_iff, hL.shown.burned, hR'.burned]
  have hholder : ∀ t x, L.Holder t x ↔ R.Holder t x := by
    intro t x
    unfold Holder
    rw [hL.shown.custody, hR'.custody]
  refine ⟨fun pub => ?_, fun hash => hL.shown.sends.get?_eq hR'.sends hash, fun t => ?_, hburned,
    fun hash => hL.shown.nfts.get?_eq hR'.nfts hash⟩
  · unfold getAccountBalance getAccountHead
    rw [hL.unfrozen, hR.unfrozen, hchains]
  · cases hb : L.burnedNfts.has t with
    | true =>
      rw [(hL.shown.owner t).burned hb, (hR'.owner t).burned (hburned t ▸ hb)]
    | false =>
      have hb' : R.burnedNfts.has t = false := hburned t ▸ hb
      ext owner
      constructor
      · intro howner
        have hhold := (hL.shown.owner t).holder owner howner
        exact hR.owner_eq hb' ((hholder t owner).mp hhold) fun y hy =>
          hL.holder_unique (hpath t) ((hholder t y).mpr hy) hhold
      · intro howner
        have hhold := (hholder t owner).mpr ((hR'.owner t).holder owner howner)
        exact hL.owner_eq hb hhold fun y hy => hL.holder_unique (hpath t) hy hhold

end Values

end NeuronWeb.EngineLedger
