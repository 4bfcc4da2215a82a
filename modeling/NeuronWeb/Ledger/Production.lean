/-
  Ledger/Production: a ledger that only creates blocks holds coherent chains.

  `Orderly` is the condition on the calls: each account signs with a key of its own,
  amounts are whole, and a token is parted with by its minter only, which keeps it on a
  path of at most one step.  Every orderly call keeps `Produced`.
-/
import NeuronWeb.Ledger.Coherence
import NeuronWeb.Ledger.Steps

set_option autoImplicit false

namespace NeuronWeb.EngineLedger

variable {F : Type}

/-- The private key signs under the public one, which is an account's name and as such
contains no separator of a token id. -/
structure KeyPair (P : Primitives F) (pub priv : Hex) : Prop where
  keyed : ':' ∉ pub.toList
  signs : ∀ message, ∃ sig, P.sign message priv = some sig ∧ P.verify sig message pub = true

/-- The blocks are the mint of a token and the transfer `hash`, and no others. -/
def MintedAndSent (hash : Hex) : List (Block F) → Prop
  | [mint, send] => mint.type = .nftMint ∧ send.hash = hash
  | _ => False

instance (hash : Hex) (blocks : List (Block F)) : Decidable (MintedAndSent hash blocks) := by
  unfold MintedAndSent
  split <;> infer_instance

/-- If `pub` owns the token, `pub` has minted it. -/
def OwnedByMinter (L : EngineLedger F) (tokenId pub : Hex) : Prop :=
  L.nftOwner.get? tokenId = some pub →
    ∀ info, L.nftInfo.get? tokenId = some info → info.minter = pub

/-- The calls that create blocks, on the conditions under which the order of replay does
not matter. -/
def Orderly [JsNumber F] (P : Primitives F) (L : EngineLedger F) : Call F → Prop
  | .registerAccount _ => True
  | .updateAccountFields _ _ => True
  | .openAccount pub priv _ _ _ _ => KeyPair P pub priv
  | .createSend pub _ amount priv _ => KeyPair P pub priv ∧
      (JsNumber.le amount (JsNumber.ofInt 0) = false →
        ∀ amt, JsNumber.toBigInt (JsNumber.round amount) = some amt →
          0 < amt ∧ amount = JsNumber.ofInt amt)
  | .createReceive pub _ priv _ => KeyPair P pub priv
  | .createUpdate pub _ priv _ => KeyPair P pub priv
  | .createMintNft pub _ _ priv _ => KeyPair P pub priv
  | .createTransferNft pub tokenId _ priv _ => KeyPair P pub priv ∧ OwnedByMinter L tokenId pub
  | .createReceiveNft pub hash priv _ => KeyPair P pub priv ∧
      ∀ offer, L.unclaimedNftTransfers.get? hash = some offer → offer.toPub = pub →
        offer.fromPub ≠ pub →
        MintedAndSent hash ((L.getAccountChain offer.fromPub).filter (names offer.tokenId))
  | .createBurnNft pub tokenId priv _ => KeyPair P pub priv ∧ OwnedByMinter L tokenId pub
  | _ => False

/-- What a ledger that has only created blocks keeps. -/
structure Produced [JsNumber F] (P : Primitives F) (L : EngineLedger F) : Prop where
  derived : L.Derived
  coherent : Coherent P L.getAccountChain
  bonded : ∀ x, 0 ≤ L.validatorRegistry.bondedOf x

/-! ## Signing -/

theorem KeyPair.created {P : Primitives F} {pub priv : Hex} (h : KeyPair P pub priv)
    {content : BlockContent F} (hpub : content.accountId = pub) {acc acc' : AccountAccumulator}
    {b : Block F} (hcreate : createBlock P content priv acc = (acc', some b)) :
    b.toBlockContent = content ∧ verifyBlock P b = true ∧ acc.append b.hash = some acc' ∧
      b.accumulatorRoot = acc'.rootHex P := by
  obtain ⟨hcontent, hhash, happend, hroot, hsign⟩ := createBlock_eq_some hcreate
  obtain ⟨sig, hsig, hverify⟩ := h.signs (blockSigningMessage b.hash b.accumulatorRoot)
  rw [hsig] at hsign
  cases hsign
  refine ⟨hcontent, (verifyBlock_iff P b).mpr ⟨by rw [hcontent, hhash], ?_⟩, happend, hroot⟩
  unfold verifyBlockSignature
  rw [hcontent, hpub]
  exact hverify

theorem KeyPair.createBlock {P : Primitives F} {pub priv : Hex} (h : KeyPair P pub priv)
    (content : BlockContent F) (acc : AccountAccumulator) :
    ∃ acc' b, NeuronWeb.createBlock P content priv acc = (acc', some b) := by
  unfold NeuronWeb.createBlock
  simp only [append_computeContentHash]
  obtain ⟨sig, hsig, _⟩ := h.signs (blockSigningMessage (computeContentHash P content)
    (AccountAccumulator.rootHex P
      (acc ++ [P.sha256 (P.encodeJson (canonicalContent content).sortValue)])))
  rw [hsig]
  exact ⟨_, _, rfl⟩

/-! ## What a produced ledger shows -/

section Shows

variable [JsNumber F] {P : Primitives F} {L : EngineLedger F}

section

variable (hL : Produced P L)
include hL

theorem Produced.send_source {hash : Hex} {s : UnclaimedSend F}
    (h : L.unclaimedSends.get? hash = some s) :
    ∃ src amount, OnChain L.getAccountChain src ∧ hash = src.hash ∧ src.type = .send ∧
      src.recipient = some s.toPub ∧ src.amount = some amount ∧
      s.amount = JsNumber.ofInt amount ∧ 0 < amount ∧
      JsNumber.toBigInt (JsNumber.ofInt amount : F) = some amount := by
  obtain ⟨⟨src, hon, hhash, hoffer⟩, _⟩ := (hL.derived.shown.sends.get?_offers hash s).mp h
  unfold sendOffer at hoffer
  split at hoffer
  · rename_i htype
    split at hoffer
    · rename_i recipient amount hrecipient hamount
      split at hoffer
      · cases hoffer
      · cases hoffer
        obtain ⟨pre, _, hcont⟩ := hL.coherent.continues.place (hL.coherent.continues.mem_own hon)
        obtain ⟨head, _, hrule⟩ := hcont.ownRule (by simp [htype])
        unfold OwnRule at hrule
        simp only [htype] at hrule
        obtain ⟨amount', hamount', hpos, hexact, _⟩ := hrule
        rw [hamount] at hamount'
        cases hamount'
        exact ⟨src, amount, hon, hhash, htype, hrecipient, hamount, rfl, hpos, hexact⟩
    · cases hoffer
  · cases hoffer

theorem Produced.nft_source {hash : Hex} {t : UnclaimedNft}
    (h : L.unclaimedNftTransfers.get? hash = some t) :
    ∃ src, OnChain L.getAccountChain src ∧ hash = src.hash ∧ src.type = .nftSend ∧
      src.recipient = some t.toPub ∧ src.accountId = t.fromPub ∧
      src.tokenId = some t.tokenId ∧ names t.tokenId src = true ∧
      ∀ b, OnChain L.getAccountChain b → nftClaim b ≠ some hash := by
  obtain ⟨⟨src, hon, hhash, hoffer⟩, hunclaimed⟩ :=
    (hL.derived.shown.nfts.get?_offers hash t).mp h
  have hnone : ∀ b, OnChain L.getAccountChain b → nftClaim b ≠ some hash :=
    fun b hb hclaim => hunclaimed ⟨b, hb, hclaim⟩
  unfold nftOffer at hoffer
  split at hoffer
  · rename_i htype
    split at hoffer
    · rename_i tokenId recipient htoken hrecipient
      split at hoffer
      · cases hoffer
      · rename_i hne
        cases hoffer
        rw [not_or] at hne
        have hnames : names tokenId src = true := names_iff.mpr ⟨false,
          wordOn_eq_some.mpr ⟨htoken, hne.1, by simp [said, htype, truthy, hrecipient, hne.2]⟩⟩
        exact ⟨src, hon, hhash, htype, hrecipient, rfl, htoken, hnames, hnone⟩
    · cases hoffer
  · cases hoffer

theorem Produced.mayPart {tokenId pub : Hex}
    (h : L.nftOwner.get? tokenId = some pub) : MayPart tokenId (L.getAccountChain pub) := by
  have howner := hL.derived.shown.owner tokenId
  obtain ⟨index, hword⟩ := howner.holder pub h
  rw [hL.derived.shown.custody] at hword
  refine ⟨⟨index, hword⟩, fun b hb htype => ?_⟩
  rw [Bool.eq_false_iff]
  intro hnames
  have hburned := (hL.derived.shown.burned tokenId).mpr ⟨b, ⟨pub, hb⟩, htype, hnames⟩
  rw [howner.burned hburned] at h
  cases h

theorem Produced.unnamed (hP : CollisionFree P) {pub : Hex}
    (hkeyed : ':' ∉ pub.toList) (contentRef : String) {b : Block F}
    (hb : OnChain L.getAccountChain b) :
    names (nftTokenId P pub (L.getAccountChain pub).length contentRef) b = false := by
  rw [Bool.eq_false_iff]
  intro hnames
  obtain ⟨mint, hon, htype, hnames'⟩ := hL.coherent.minted _ b hb hnames
  obtain ⟨pre, hpre, hcont⟩ := hL.coherent.continues.place (hL.coherent.continues.mem_own hon)
  obtain ⟨contentRef', heq, _⟩ := hcont.mint htype hnames'
  obtain ⟨haccount, hlength, -⟩ := nftTokenId_inj hP hkeyed hcont.keyed heq
  have hle := hpre.length_le
  rw [← haccount, List.length_append, List.length_singleton] at hle
  omega

theorem Produced.unclaimed {b : Block F}
    (hnext : Next L.getAccountChain b) : L.claimedSends.has b.hash = false := by
  rw [Bool.eq_false_iff]
  intro hclaimed
  obtain ⟨claim, hon, hclaim⟩ := (hL.derived.shown.sends.has_claimed b.hash).mp hclaimed
  unfold sendClaim at hclaim
  split at hclaim
  · rename_i htype
    obtain ⟨src, hsrc, hsources⟩ := hL.coherent.sourced claim hon (.inl htype)
    rw [Option.filter_eq_some_iff, hsources.named] at hclaim
    exact hnext.hash_ne src hsrc (Option.some.inj hclaim.1)
  · cases hclaim

end

end Shows

/-! ## Drafts fit -/

section Drafts

variable [JsNumber F] {P : Primitives F} {L : EngineLedger F} {c : Call F} {pub priv : Hex}
  {now : Int} {head b : Block F} {effect : Effect F}

theorem Draft.keyPair {content : BlockContent F}
    (d : Draft P L pub priv head now c content effect) (hc : Orderly P L c) :
    KeyPair P pub priv := by
  cases d
  case send => exact hc.1
  case nftSend => exact hc.1
  case nftReceive => exact hc.1
  case nftBurn => exact hc.1
  all_goals first | exact hc | exact hc.elim

section

variable (d : Draft P L pub priv head now c b.toBlockContent effect)
include d

/-- A draft keeps the rule of its type. -/
theorem Draft.ownRule (hL : Produced P L) (hP : CollisionFree P) (hc : Orderly P L c)
    (hindex : head.index + 1 = (L.getAccountChain pub).length) :
    OwnRule P (L.getAccountChain pub) head b := by
  have hkeyed := (d.keyPair hc).keyed
  generalize hcontent : b.toBlockContent = content at d
  unfold OwnRule
  rw [hcontent]
  cases d
  case send amount amt resolved recipient_ne positive rounded covered =>
    obtain ⟨hpos, hwhole⟩ := hc.2 positive amt rounded
    have hbonded := hL.bonded pub
    rw [hwhole, JsNumber.round_ofInt] at rounded
    refine ⟨amt, rfl, hpos, rounded, rfl, ?_⟩
    simp only [nextContent]
    omega
  case receive hash unclaimed amt offered addressed rounded =>
    obtain ⟨src, amount, _, _, _, _, _, hamount, hpos, hexact⟩ := hL.send_source offered
    rw [hamount, JsNumber.round_ofInt, hexact] at rounded
    cases rounded
    exact ⟨_, rfl, hpos, rfl⟩
  case update => rfl
  case nftMint contentRef md notFrozen contentRef_ne =>
    refine ⟨rfl, contentRef, rfl, contentRef_ne, rfl, fun b' hb' => ?_⟩
    simp only [nextContent, hindex]
    exact hL.unnamed hP hkeyed contentRef ⟨pub, hb'⟩
  case nftSend tokenId identifier recipientPub resolved recipient_ne notFrozen owned =>
    have hpart := hL.mayPart owned
    obtain ⟨b', _, hnames⟩ := hpart.names
    exact ⟨rfl, by simp [truthy, recipient_ne], tokenId, rfl, (tokenId_of_names hnames).2, hpart⟩
  case nftReceive hash unclaimed notFrozen offered addressed =>
    obtain ⟨src, hon, hhash, _, _, _, _, hnames, _⟩ := hL.nft_source offered
    obtain ⟨_, _, hcont⟩ := hL.coherent.continues.place (hL.coherent.continues.mem_own hon)
    have hne : hash ≠ "" := by
      rw [hhash, ← ((verifyBlock_iff P src).mp hcont.verified).1]
      exact hP.computeContentHash_ne_empty _
    exact ⟨rfl, by simp [truthy, (tokenId_of_names hnames).2], by simp [truthy, hne]⟩
  case nftBurn tokenId notFrozen owned =>
    have hpart := hL.mayPart owned
    obtain ⟨b', _, hnames⟩ := hpart.names
    exact ⟨rfl, tokenId, rfl, (tokenId_of_names hnames).2, hpart⟩
  all_goals exact hc.elim

theorem Draft.sourced
    (hL : Produced P L) (hc : Orderly P L c) (htype : b.type = .receive ∨ b.type = .nftReceive) :
    ∃ src, OnChain L.getAccountChain src ∧ Sources src b := by
  generalize hcontent : b.toBlockContent = content at d htype
  cases d
  case receive hash unclaimed amt offered addressed rounded =>
    obtain ⟨src, amount, hon, hhash, hsend, hrecipient, hsame, hamount, _, hexact⟩ :=
      hL.send_source offered
    rw [hamount, JsNumber.round_ofInt, hexact] at rounded
    cases rounded
    refine ⟨src, hon, ?_, ?_, .inl ⟨?_, hsend, ?_⟩⟩
    · rw [hcontent, ← hhash]
    · rw [hrecipient, addressed, hcontent]
      rfl
    · rw [hcontent]
      rfl
    · rw [hsame, hcontent]
  case nftReceive hash unclaimed notFrozen offered addressed =>
    obtain ⟨src, hon, hhash, hsend, hrecipient, _, htoken, _⟩ := hL.nft_source offered
    refine ⟨src, hon, ?_, ?_, .inr ⟨?_, hsend, ?_⟩⟩
    · rw [hcontent, ← hhash]
    · rw [hrecipient, addressed, hcontent]
      rfl
    · rw [hcontent]
      rfl
    · rw [htoken, hcontent]
  all_goals simp [nextContent] at htype

theorem Draft.minted (hL : Produced P L) {tokenId : Hex} (hnames : names tokenId b = true) :
    b.type = .nftMint ∨ ∃ mint, OnChain L.getAccountChain mint ∧ mint.type = .nftMint ∧
      names tokenId mint = true := by
  have htoken := (tokenId_of_names hnames).1
  generalize hcontent : b.toBlockContent = content at d htoken
  cases d
  case nftMint => exact .inl rfl
  case nftSend tokenId' _ _ _ _ _ owned =>
    cases htoken
    obtain ⟨b', hb', hn⟩ := (hL.mayPart owned).names
    exact .inr (hL.coherent.minted tokenId b' ⟨pub, hb'⟩ hn)
  case nftReceive hash unclaimed notFrozen offered addressed =>
    cases htoken
    obtain ⟨src, hon, _, _, _, _, _, hn, _⟩ := hL.nft_source offered
    exact .inr (hL.coherent.minted _ src hon hn)
  case nftBurn tokenId' _ owned =>
    cases htoken
    obtain ⟨b', hb', hn⟩ := (hL.mayPart owned).names
    exact .inr (hL.coherent.minted tokenId b' ⟨pub, hb'⟩ hn)
  all_goals simp [nextContent] at htoken

end

theorem Produced.path_of_owned (hL : Produced P L) {tokenId : Hex}
    (howned : L.nftOwner.get? tokenId = some pub) (hminter : OwnedByMinter L tokenId pub)
    (haccount : b.accountId = pub) : TokenPath tokenId (extend L.getAccountChain b) := by
  have hpart := hL.mayPart howned
  obtain ⟨b', hb', hn⟩ := hpart.names
  -- the record of the mint names `pub`, so the mint is on its chain
  obtain ⟨mint, hown, mintType, mintNames⟩ : ∃ mint ∈ L.getAccountChain pub,
      mint.type = .nftMint ∧ names tokenId mint = true := by
    obtain ⟨mint, hmint, mintType, mintNames⟩ := hL.coherent.minted tokenId b' ⟨pub, hb'⟩ hn
    obtain ⟨info, hinfo⟩ :=
      (JsMap.has_iff _ _).mp (hL.derived.shown.minted mint tokenId hmint mintType mintNames)
    obtain ⟨first, hon, firstType, firstNames, haccount⟩ :=
      hL.derived.shown.minter tokenId info hinfo
    have hmem := hL.coherent.continues.mem_own hon
    rw [haccount, hminter howned info hinfo] at hmem
    exact ⟨first, hmem, firstType, firstNames⟩
  cases hL.coherent.path tokenId with
  | home minter others =>
    have hhome := eq_of_names_home others hb' hn
    refine .home pub fun x hx b'' hb'' => ?_
    rcases mem_extend.mp hb'' with hold | ⟨_, hx'⟩
    · exact others x (hhome ▸ hx) b'' hold
    · exact absurd (hx'.symm.trans haccount) hx
  | passed minter receiver mint' send receive home away others mint_type send_type
      receive_type claims =>
      exfalso
      rcases eq_of_names_passed home away others hown mintNames with ⟨rfl, _⟩ | ⟨_, rfl⟩
      · obtain ⟨index, hword⟩ := hpart.holds
        obtain ⟨index', hgone⟩ := lastWord_of_passed home send_type
        rw [hgone] at hword
        cases hword
      · rw [receive_type] at mintType
        cases mintType

/-- The path of a token whose transfer is received. -/
theorem Produced.path_of_received (hL : Produced P L) (hP : CollisionFree P) {hash : Hex}
    {t : UnclaimedNft} (hoffer : L.unclaimedNftTransfers.get? hash = some t)
    (hsent : t.fromPub ≠ pub →
      MintedAndSent hash ((L.getAccountChain t.fromPub).filter (names t.tokenId)))
    (haccount : b.accountId = pub) (htype : b.type = .nftReceive)
    (hnames : names t.tokenId b = true) (hclaim : nftClaim b = some hash) :
    TokenPath t.tokenId (extend L.getAccountChain b) := by
  obtain ⟨src, hon, hhash, srcType, _, hfrom, _, srcNames, hunclaimed⟩ := hL.nft_source hoffer
  have hsrc : src ∈ L.getAccountChain t.fromPub := hfrom ▸ hL.coherent.continues.mem_own hon
  cases hL.coherent.path t.tokenId with
  | home minter others =>
    have hminter : t.fromPub = minter := eq_of_names_home others hsrc srcNames
    by_cases hself : t.fromPub = pub
    · refine .home pub fun x hx b' hb' => ?_
      rcases mem_extend.mp hb' with hold | ⟨_, hx'⟩
      · exact others x (fun h => hx (by rw [h, ← hminter, hself])) b' hold
      · exact absurd (hx'.symm.trans haccount) hx
    · have hpair := hsent hself
      unfold MintedAndSent at hpair
      split at hpair
      · rename_i mint send hfilter
        obtain ⟨mintType, sendHash⟩ := hpair
        have hsend : send ∈ L.getAccountChain t.fromPub :=
          (List.mem_filter.mp (hfilter ▸ List.mem_cons_of_mem mint List.mem_cons_self)).1
        have hsame : send = src := hL.coherent.continues.eq_of_hash hP ⟨_, hsend⟩ hon
          (sendHash.trans hhash)
        have hnone : (L.getAccountChain pub).filter (names t.tokenId) = [] := by
          rw [List.filter_eq_nil_iff]
          intro b' hb'
          rw [others pub (fun h => hself (hminter.trans h.symm)) b' hb']
          exact Bool.false_ne_true
        refine .passed t.fromPub pub mint send b ?_ ?_ (fun x hx hx' b' hb' => ?_) mintType
          (hsame ▸ srcType) htype (by rw [hclaim, sendHash])
        · unfold extend
          rw [if_neg (fun h => hself (h.symm.trans haccount)), hfilter]
        · unfold extend
          rw [if_pos haccount, List.filter_append, hnone,
            List.filter_cons_of_pos hnames, List.filter_nil, List.nil_append]
        · rcases mem_extend.mp hb' with hold | ⟨_, hx''⟩
          · exact others x (hminter ▸ hx) b' hold
          · exact absurd (hx''.symm.trans haccount) hx'
      · exact hpair.elim
  | passed minter receiver mint send receive home away others mint_type send_type
      receive_type claims =>
      exfalso
      rcases eq_of_names_passed home away others hsrc srcNames with ⟨_, rfl | rfl⟩ | ⟨_, rfl⟩
      · rw [mint_type] at srcType
        cases srcType
      · have hreceive : receive ∈ L.getAccountChain receiver :=
          (List.mem_filter.mp (away ▸ List.mem_cons_self)).1
        exact hunclaimed receive ⟨receiver, hreceive⟩ (by rw [claims, hhash])
      · rw [receive_type] at srcType
        cases srcType

/-- The path of a token that a draft names. -/
theorem Draft.path (d : Draft P L pub priv head now c b.toBlockContent effect)
    (hL : Produced P L) (hP : CollisionFree P) (hc : Orderly P L c)
    (hindex : head.index + 1 = (L.getAccountChain pub).length) {tokenId : Hex}
    (hnames : names tokenId b = true) : TokenPath tokenId (extend L.getAccountChain b) := by
  have hkeyed := (d.keyPair hc).keyed
  have htoken := (tokenId_of_names hnames).1
  have haccount := d.header.1
  generalize hcontent : b.toBlockContent = content at d htoken
  cases d
  case nftMint contentRef md notFrozen contentRef_ne =>
    cases htoken
    refine .home pub fun x hx b' hb' => ?_
    rcases mem_extend.mp hb' with hold | ⟨_, hx'⟩
    · rw [hindex]
      exact hL.unnamed hP hkeyed contentRef ⟨x, hold⟩
    · exact absurd (hx'.symm.trans haccount) hx
  case nftSend tokenId' _ _ _ _ _ owned =>
    cases htoken
    exact hL.path_of_owned owned hc.2 haccount
  case nftReceive hash unclaimed notFrozen offered addressed =>
    cases htoken
    have hclaim : nftClaim b = some hash := by
      obtain ⟨src, hon, hhash, _⟩ := hL.nft_source offered
      obtain ⟨_, _, hcont⟩ := hL.coherent.continues.place (hL.coherent.continues.mem_own hon)
      have hne : hash ≠ "" := by
        rw [hhash, ← ((verifyBlock_iff P src).mp hcont.verified).1]
        exact hP.computeContentHash_ne_empty _
      unfold nftClaim
      rw [hcontent]
      simp [nextContent, truthy, (tokenId_of_names hnames).2, hne]
    exact hL.path_of_received hP offered (hc.2 unclaimed offered addressed) haccount
      (by rw [hcontent]; rfl) hnames hclaim
  case nftBurn tokenId' _ owned =>
    cases htoken
    exact hL.path_of_owned owned hc.2 haccount
  all_goals simp [nextContent] at htoken

theorem Draft.effect_eq (d : Draft P L pub priv head now c b.toBlockContent effect)
    (hL : Produced P L) (hP : CollisionFree P) (hc : Orderly P L c) {L' : EngineLedger F}
    (hunclaimed : L'.claimedSends.has b.hash = false) : effect L' b = applyBlock P L' b := by
  have haccount := d.header.1
  generalize hcontent : b.toBlockContent = content at d
  unfold applyBlock
  rw [hcontent]
  cases d
  case send identifier recipientPub amount amt resolved recipient_ne positive rounded covered =>
    obtain ⟨_, hwhole⟩ := hc.2 positive amt rounded
    simp only [nextContent, applySend, hcontent, recipient_ne, hunclaimed, Bool.false_eq_true,
      or_self, if_false, hwhole]
  case receive hash unclaimed amt offered addressed rounded =>
    obtain ⟨src, _, hon, hhash, _⟩ := hL.send_source offered
    obtain ⟨_, _, hcont⟩ := hL.coherent.continues.place (hL.coherent.continues.mem_own hon)
    have hne : hash ≠ "" := by
      rw [hhash, ← ((verifyBlock_iff P src).mp hcont.verified).1]
      exact hP.computeContentHash_ne_empty _
    simp only [nextContent, applyReceive, hcontent, hne, if_false]
  case update updates notFrozen some_update =>
    simp only [nextContent, applyUpdate, hcontent]
  all_goals rfl

end Drafts

/-! ## Orderly calls -/

section Steps

variable [JsNumber F] {P : Primitives F} {cfg : LedgerConfig} {L L' : EngineLedger F}
  {c : Call F} {b : Block F}

theorem Produced.of_eq (hL : Produced P L) (hheld : L'.held = L.held)
    (hblocks : L'.allBlocks = L.allBlocks) (hfrozen : L'.equivocated = L.equivocated)
    (hbonded : ∀ x, L.validatorRegistry.bondedOf x ≤ L'.validatorRegistry.bondedOf x)
    (hshown : L'.Shown L.getAccountChain) : Produced P L' := by
  have hchain : L'.getAccountChain = L.getAccountChain :=
    funext fun x => getAccountChain_congr hheld x
  exact ⟨hL.derived.of_eq hheld hblocks hfrozen hshown, hchain ▸ hL.coherent,
    fun x => le_trans (hL.bonded x) (hbonded x)⟩

theorem Produced.append (hL : Produced P L) (hfits : Fits P L.getAccountChain b)
    (hnext : L'.Derived ∧ L'.getAccountChain = extend L.getAccountChain b)
    (hregistry : L'.validatorRegistry = L.validatorRegistry) : Produced P L' :=
  ⟨hnext.1, hnext.2 ▸ hL.coherent.extend hfits, fun x => hregistry ▸ hL.bonded x⟩

/-- Opening an account with a key of its own. -/
theorem produced_open (hP : CollisionFree P) (hL : Produced P L)
    {pub priv nullifier : Hex} {attestations : List TypedAttestation} {bond : Bool} {now : Int}
    {r : EngineLedger F × CreateResult F} (hkey : KeyPair P pub priv)
    (h : OpenOutcome P cfg L pub priv nullifier attestations bond now r) : Produced P r.1 := by
  cases h with
  | refused error => exact hL
  | thrown identity =>
    exact hL.of_eq rfl rfl rfl (fun _ => le_refl _)
      (hL.derived.shown.of_eq rfl rfl rfl rfl rfl rfl)
  | opened identity shard acc b admitted created =>
    obtain ⟨hcontent, hverified, happend, hroot⟩ := hkey.created rfl created
    have hnil : L.getAccountChain pub = [] := by simp [getAccountChain, admitted.fresh]
    have haccount : b.accountId = pub := by rw [hcontent]
    have htype : b.type = .open := by rw [hcontent]
    have hnames : ∀ t, names t b = false := fun t =>
      names_eq_false.mpr (wordOn_of_said (by simp [said, htype]) t)
    have hacc : acc = leavesOf ([] ++ [b]) := leavesOf_append
      (show (leavesOf []).append b.hash = some acc from happend)
    have hfits : Fits P L.getAccountChain b := by
      refine ⟨?_, fun h => ?_, fun t h => ?_, fun t h => ?_⟩
      · rw [haccount, hnil]
        refine ⟨haccount, hkey.keyed, by rw [hcontent]; rfl, hverified, by rw [hroot, hacc],
          fun _ => ⟨htype, by rw [hcontent], by rw [hcontent]⟩, fun head h => by cases h⟩
      · simp [htype] at h
      · simp [hnames] at h
      · simp [hnames] at h
    let L₁ : EngineLedger F := { L with identity }
    have hL₁ : Produced P L₁ := hL.of_eq rfl rfl rfl (fun _ => le_refl _)
      (hL.derived.shown.of_eq rfl rfl rfl rfl rfl rfl)
    have happended := hL₁.derived.appendOwn P (hL₁.coherent.continues.next hP hfits.continues)
      ⟨[], []⟩ ((L₁.hold pub ⟨[b], acc⟩).indexBlock b) (by rw [haccount]; exact hnil.symm) happend
      (by rw [haccount]; rfl)
    have heffect : ∀ X : EngineLedger F, applyBlock P X b = X := by
      intro X
      unfold applyBlock
      rw [htype]
    rw [heffect] at happended
    have hopened := hL₁.append hfits happended rfl
    simp only
    split
    · obtain ⟨registry, heq, _⟩ := bondStake_eq
        ((L₁.hold pub ⟨[b], acc⟩).indexBlock b) pub (some MINT)
      have hbonded := bondedOf_le_bondStake
        ((L₁.hold pub ⟨[b], acc⟩).indexBlock b) pub (some MINT)
      rw [heq] at hbonded ⊢
      exact hopened.of_eq rfl rfl rfl hbonded
        (hopened.derived.shown.of_eq rfl rfl rfl rfl rfl rfl)
    · exact hopened

/-- A `create*` call by an account that signs with its key. -/
theorem produced_create (hP : CollisionFree P) (hL : Produced P L) {pub priv : Hex} {now : Int}
    {r : EngineLedger F × CreateResult F} (hc : Orderly P L c)
    (h : CreateOutcome P L c pub priv now r) : Produced P r.1 := by
  cases h with
  | refused error => exact hL
  | thrown => exact hL
  | drafted stored head content effect hstored hlast draft =>
    have hkey := draft.keyPair hc
    obtain ⟨hpub, hindex, hprev, _⟩ := draft.header
    obtain ⟨acc, b, hcreate⟩ := hkey.createBlock content stored.acc
    obtain ⟨hcontent, hverified, happend, hroot⟩ := hkey.created hpub hcreate
    have haccount : b.accountId = pub := by rw [hcontent, hpub]
    have hchain := getAccountChain_of_held hstored
    rw [hL.derived.acc_eq hstored] at happend
    have hacc := leavesOf_append happend
    -- the head stands at the last height of the chain
    obtain ⟨front, hfront⟩ := List.getLast?_eq_some_iff.mp (hchain ▸ hlast)
    have hhead := (hL.coherent.continues pub front head (hfront ▸ List.prefix_rfl)).index
    have hlength : head.index + 1 = (L.getAccountChain pub).length := by
      rw [hfront, List.length_append, List.length_singleton, hhead]
      omega
    have draft' : Draft P L pub priv head now c b.toBlockContent effect := hcontent ▸ draft
    have hne : L.getAccountChain pub ≠ [] := by simp [hfront]
    have hcontinues : Continues P pub (L.getAccountChain pub) b := by
      refine ⟨haccount, hkey.keyed, by rw [hcontent, hindex, hlength], hverified,
        by rw [hroot, hacc], fun hnil => absurd hnil hne, fun head' hlast' => ?_⟩
      rw [hchain, hlast] at hlast'
      cases hlast'
      exact ⟨by rw [hcontent, hprev], draft'.ownRule hL hP hc hlength⟩
    have hfits : Fits P L.getAccountChain b :=
      ⟨by rw [haccount]; exact hcontinues, draft'.sourced hL hc, fun t => draft'.minted hL,
        fun t => draft'.path hL hP hc hlength⟩
    have hnext := hL.coherent.continues.next hP hfits.continues
    have hunclaimed := hL.unclaimed hnext
    let L₁ := (L.hold pub ⟨stored.chain ++ [b], acc⟩).indexBlock b
    have happended := hL.derived.appendOwn P hnext stored L₁
      (by rw [haccount, hchain]) (by rw [← hchain]; exact happend) (by rw [haccount])
    have heffect : effect L₁ b = applyBlock P L₁ b := draft'.effect_eq hL hP hc hunclaimed
    rw [← heffect] at happended
    have hregistry := (draft.sameChains L₁ b).validatorRegistry
    unfold appendOwn
    rw [hcreate]
    simp only [hpub]
    exact hL.append hfits happended hregistry

theorem produced_step (hP : CollisionFree P) (hL : Produced P L) (hc : Orderly P L c) :
    Produced P (step P cfg L c) := by
  cases hauthor : c.author with
  | some author =>
    obtain ⟨pub, priv, now⟩ := author
    obtain ⟨r, hstep, houtcome⟩ := step_of_author P cfg L hauthor
    rw [hstep]
    exact produced_create hP hL hc houtcome
  | none =>
    cases c
    case registerAccount account =>
      obtain ⟨accountsByPub, usernameToPub, heq⟩ := registerAccount_eq L account
      simp only [step, heq]
      exact hL.of_eq rfl rfl rfl (fun _ => le_refl _)
        (hL.derived.shown.of_eq rfl rfl rfl rfl rfl rfl)
    case updateAccountFields pub username =>
      obtain ⟨accountsByPub, usernameToPub, heq⟩ := updateAccountFields_eq L pub username
      simp only [step, heq]
      exact hL.of_eq rfl rfl rfl (fun _ => le_refl _)
        (hL.derived.shown.of_eq rfl rfl rfl rfl rfl rfl)
    case openAccount pub priv nullifier attestations bond now =>
      exact produced_open hP hL hc
        (openAccount_outcome P cfg L pub priv nullifier attestations bond now)
    all_goals first | exact hc.elim | cases hauthor

theorem produced_new (P : Primitives F) : Produced P (new P) :=
  ⟨derived_new P, coherent_nil P, fun _ => le_refl _⟩

end Steps

end NeuronWeb.EngineLedger
