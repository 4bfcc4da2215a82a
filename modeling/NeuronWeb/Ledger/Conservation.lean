/-
  Ledger/Conservation: value is conserved on the local path.

  What the accounts have and what is on offer add up to what was minted: the genesis
  amount for each opened account, and what the settlements pay.  A call changes one entry
  of the held chains and one of the offers, so each sum moves by a difference.
-/
import NeuronWeb.Foundation.MapSum
import NeuronWeb.Ledger.PeerAcceptance
import NeuronWeb.Transparent

set_option autoImplicit false

namespace NeuronWeb.EngineLedger

variable {F : Type}

/-! ## The sums -/

/-- The balance at the head of a chain. -/
def headBalance (h : Held F) : Int := (h.chain.getLast?.map fun head => head.balance).getD 0

/-- What a block mints beyond the genesis amount. -/
def settleAmount (b : BlockContent F) : Int :=
  if b.type = .storageSettle then b.amount.getD 0 else 0

/-- What the settlements of a chain have paid. -/
def settledOn (h : Held F) : Int := (h.chain.map fun b => settleAmount b.toBlockContent).sum

/-- The whole amount of a payment on offer. -/
def offered [JsNumber F] (s : UnclaimedSend F) : Int := JsNumber.toInt (JsNumber.round s.amount)

/-- Balances and offers add up to the mints and the settlements, and no balance is
negative. -/
structure Conserved [JsNumber F] (L : EngineLedger F) : Prop where
  sum : L.held.total headBalance + L.unclaimedSends.total offered =
    MINT * L.held.keys.length + L.held.total settledOn
  nonneg : ∀ x head, L.getAccountHead x = some head → 0 ≤ head.balance

/-- The calls of the local path. -/
def Call.isLocal : Call F → Bool
  | .addBlock .. | .registerVerifiedMint .. | .registerVerifiedSend .. | .restoreVerifiedBlock _
  | .applyEvidence _ | .applyEvidenceFromBlocks .. | .applyCommitteeVote _
  | .setDiscoveredProviders _ | .purgeAccount _ | .reset => false
  | _ => true

theorem settledOn_append (h : Held F) (acc : AccountAccumulator) (b : Block F) :
    settledOn ⟨h.chain ++ [b], acc⟩ = settledOn h + settleAmount b.toBlockContent := by
  simp [settledOn]

theorem headBalance_append (chain : List (Block F)) (acc : AccountAccumulator) (b : Block F) :
    headBalance ⟨chain ++ [b], acc⟩ = b.balance := by
  simp [headBalance]

theorem headBalance_of_last {h : Held F} {head : Block F} (last : h.chain.getLast? = some head) :
    headBalance h = head.balance := by
  simp [headBalance, last]

/-! ## Where an offer stands -/

/-- An offer is of the hash of a block that its account's chain has reached. -/
def OfferPlaced (P : Primitives F) (L : EngineLedger F) (hash : Hex) : Prop :=
  ∃ (src : BlockContent F) (head : Block F), hash = computeContentHash P src ∧
    L.getAccountHead src.accountId = some head ∧ src.index ≤ head.index

theorem OfferPlaced.mono {P : Primitives F} {L L' : EngineLedger F} {hash : Hex}
    (h : OfferPlaced P L hash)
    (hheads : ∀ x head, L.getAccountHead x = some head →
      ∃ head', L'.getAccountHead x = some head' ∧ head.index ≤ head'.index) :
    OfferPlaced P L' hash := by
  obtain ⟨src, head, hhash, hhead, hle⟩ := h
  obtain ⟨head', hhead', hle'⟩ := hheads _ _ hhead
  exact ⟨src, head', hhash, hhead', hle.trans hle'⟩

/-! ## What a draft moves -/

variable [JsNumber F] {P : Primitives F} {cfg : LedgerConfig} {L : EngineLedger F} {c : Call F}

/-- What a block of `pub` on `head` moves between balances and offers. -/
inductive ValueMove (L : EngineLedger F) (pub : Hex) (head b : Block F)
    (offers : JsMap Hex (UnclaimedSend F)) : JsMap Hex (UnclaimedSend F) → Prop
  | offers (recipientPub : Hex) (amount : F)
      (nonneg : 0 ≤ offered (F := F) ⟨pub, recipientPub, amount⟩)
      (covered : L.validatorRegistry.bondedOf pub ≤ b.balance)
      (balance : b.balance = head.balance - offered (F := F) ⟨pub, recipientPub, amount⟩)
      (settles : settleAmount b.toBlockContent = 0) :
      ValueMove L pub head b offers (offers.set b.hash ⟨pub, recipientPub, amount⟩)
  | claims (source : Hex) (offer : UnclaimedSend F)
      (onOffer : L.unclaimedSends.get? source = some offer)
      (balance : b.balance = head.balance + offered offer)
      (settles : settleAmount b.toBlockContent = 0) :
      ValueMove L pub head b offers (offers.delete source)
  | keeps (nonneg : 0 ≤ settleAmount b.toBlockContent)
      (balance : b.balance = head.balance + settleAmount b.toBlockContent) :
      ValueMove L pub head b offers offers

theorem valueMove_still {pub : Hex} {head b : Block F}
    {offers offers' : JsMap Hex (UnclaimedSend F)}
    (hbalance : b.balance = head.balance) (hsettles : settleAmount b.toBlockContent = 0)
    (hoffers : offers' = offers) : ValueMove L pub head b offers offers' := by
  subst hoffers
  exact .keeps hsettles.ge (by rw [hsettles, hbalance, add_zero])

theorem Draft.valueMove [LawfulJsNumber F] {pub priv : Hex} {head b : Block F} {now : Int}
    {effect : Effect F} (d : Draft P L pub priv head now c b.toBlockContent effect)
    (L' : EngineLedger F) :
    ValueMove L pub head b L'.unclaimedSends (effect L' b).unclaimedSends := by
  generalize hcontent : b.toBlockContent = content at d
  have hstill : ∀ offers', content.balance = head.balance → settleAmount content = 0 →
      offers' = L'.unclaimedSends → ValueMove L pub head b L'.unclaimedSends offers' :=
    fun _ hbalance hsettles hoffers =>
      valueMove_still (hcontent ▸ hbalance) (hcontent ▸ hsettles) hoffers
  cases d
  case send recipientIdentifier recipientPub amount amt _ _ positive rounded covered =>
    have hoffered : offered (F := F) ⟨pub, recipientPub, amount⟩ = amt := by
      simp [offered, JsNumber.toInt, rounded]
    refine .offers recipientPub amount ?_ ?_ ?_ ?_
    · rw [hoffered]
      exact LawfulJsNumber.round_nonneg amount amt positive rounded
    · rw [hcontent]
      change _ ≤ head.balance - amt
      omega
    · rw [hoffered, hcontent]
      rfl
    · rw [hcontent]
      rfl
  case receive sendBlockHash unclaimed amt onOffer addressed rounded =>
    have hoffered : offered unclaimed = amt := by simp [offered, JsNumber.toInt, rounded]
    refine .claims sendBlockHash unclaimed onOffer ?_ ?_
    · rw [hoffered, hcontent]
      rfl
    · rw [hcontent]
      rfl
  case storageSettle receipts periodIndex publishRoot serviceRoot payable amount _ _ _ positive
      floored =>
    refine .keeps ?_ ?_
    · rw [hcontent]
      exact LawfulJsNumber.floor_nonneg payable amount positive floored
    · rw [hcontent]
      rfl
  case update updates _ _ =>
    obtain ⟨_, _, h⟩ := applyAccountUpdate_eq L' pub updates
    exact hstill _ rfl rfl (by simp [h])
  case nftMint =>
    obtain ⟨_, _, _, h⟩ := applyNftMint_eq L' b
    exact hstill _ rfl rfl (by simp [h])
  case nftSend =>
    obtain ⟨_, _, _, h, _⟩ := applyNftSend_eq L' b
    exact hstill _ rfl rfl (by simp [h])
  case nftReceive =>
    obtain ⟨_, _, _, _, h, _⟩ := applyNftReceive_eq L' b
    exact hstill _ rfl rfl (by simp [h])
  case nftBurn =>
    obtain ⟨_, _, _, h⟩ := applyNftBurn_eq L' b
    exact hstill _ rfl rfl (by simp [h])
  all_goals exact hstill _ rfl rfl rfl

/-! ## The invariant -/

structure Balanced (P : Primitives F) (L : EngineLedger F) : Prop extends Conserved L where
  bonded : ∀ x, 0 ≤ L.validatorRegistry.bondedOf x
  offers : ∀ hash s, L.unclaimedSends.get? hash = some s → 0 ≤ offered s ∧ OfferPlaced P L hash

theorem balanced_new (P : Primitives F) : Balanced P (new P : EngineLedger F) where
  sum := by simp [new, JsMap.keys, JsMap.empty, JsMap.total, JsMap.values]
  nonneg _ _ h := by cases h
  bonded _ := le_refl _
  offers _ _ h := by cases h

theorem Balanced.congr {L' : EngineLedger F} (hL : Balanced P L) (hheld : L'.held = L.held)
    (hoffers : L'.unclaimedSends = L.unclaimedSends)
    (hbonded : ∀ x, 0 ≤ L'.validatorRegistry.bondedOf x) : Balanced P L' where
  sum := by
    rw [hheld, hoffers]
    exact hL.sum
  nonneg x head h := by
    rw [getAccountHead_eq, getAccountChain_congr hheld] at h
    exact hL.nonneg x head h
  bonded := hbonded
  offers hash s h := by
    rw [hoffers] at h
    obtain ⟨hnonneg, src, head, hhash, hhead, hle⟩ := hL.offers hash s h
    refine ⟨hnonneg, src, head, hhash, ?_, hle⟩
    rwa [getAccountHead_eq, getAccountChain_congr hheld]

/-! ## One entry at a time -/

theorem sum_of_hold {pub : Hex} {h h' : Held F} {offers : JsMap Hex (UnclaimedSend F)}
    (hL : Conserved L) (stored : L.held.get? pub = some h)
    (hmoves : headBalance h' + offers.total offered + settledOn h =
      headBalance h + L.unclaimedSends.total offered + settledOn h') :
    (L.held.set pub h').total headBalance + offers.total offered =
      MINT * (L.held.set pub h').keys.length + (L.held.set pub h').total settledOn := by
  have hsum := hL.sum
  have hbalance := JsMap.total_set headBalance L.held pub h'
  have hsettled := JsMap.total_set settledOn L.held pub h'
  have hcount := JsMap.total_set (fun _ => (1 : Int)) L.held pub h'
  rw [stored, Option.elim_some] at hbalance hsettled hcount
  rw [JsMap.total_one, JsMap.total_one] at hcount
  have hlength : ((L.held.set pub h').keys.length : Int) = L.held.keys.length := by omega
  rw [hlength]
  omega

theorem ValueMove.total {pub : Hex} {head b : Block F} {offers : JsMap Hex (UnclaimedSend F)}
    (h : ValueMove L pub head b L.unclaimedSends offers)
    (hfresh : L.unclaimedSends.get? b.hash = none) :
    b.balance + offers.total offered =
      head.balance + L.unclaimedSends.total offered + settleAmount b.toBlockContent := by
  cases h with
  | offers recipientPub amount nonneg covered balance settles =>
    have htotal := JsMap.total_set_of_fresh offered hfresh
      (⟨pub, recipientPub, amount⟩ : UnclaimedSend F)
    omega
  | claims source offer onOffer balance settles =>
    have htotal := JsMap.total_delete offered L.unclaimedSends source
    rw [onOffer, Option.elim_some] at htotal
    omega
  | keeps nonneg balance => omega

theorem Balanced.fresh (hP : CollisionFree P) (hL : Balanced P L) {head b : Block F}
    (hhead : L.getAccountHead b.accountId = some head)
    (hhash : b.hash = computeContentHash P b.toBlockContent) (hindex : b.index = head.index + 1) :
    L.unclaimedSends.get? b.hash = none := by
  cases hget : L.unclaimedSends.get? b.hash with
  | none => rfl
  | some s =>
    obtain ⟨-, src, srcHead, hsrc, hsrcHead, hle⟩ := hL.offers _ s hget
    obtain ⟨haccount, hsame⟩ := hP.header_eq_of_hash_eq (hsrc.symm.trans hhash)
    rw [haccount, hhead] at hsrcHead
    cases hsrcHead
    omega

/-- An own block behind the head keeps the balance. -/
theorem Balanced.afterOwn [LawfulJsNumber F] (hP : CollisionFree P) (hL : Balanced P L)
    {pub priv : Hex} {now : Int} {h : Held F} {head b : Block F} {acc : AccountAccumulator}
    {effect : Effect F} (signs : Signs P L c pub priv now h head b acc effect) :
    Balanced P (L.afterOwn pub h acc effect b) := by
  let appended := (L.hold pub ⟨h.chain ++ [b], acc⟩).indexBlock b
  have hsame : SameChains appended (L.afterOwn pub h acc effect b) :=
    signs.draft.sameChains appended b
  obtain ⟨offers, hoffers, hmove⟩ : ∃ offers,
      (L.afterOwn pub h acc effect b).unclaimedSends = offers ∧
        ValueMove L pub head b L.unclaimedSends offers :=
    ⟨_, rfl, signs.draft.valueMove appended⟩
  obtain ⟨haccount, hindex, -⟩ := signs.draft.header
  obtain ⟨-, hhash, -⟩ := createBlock_eq_some signs.signed
  have hhead : L.getAccountHead pub = some head := by
    rw [getAccountHead_eq, getAccountChain_of_held signs.stored, signs.last]
  have hheads : ∀ x, (L.afterOwn pub h acc effect b).getAccountHead x =
      if pub = x then some b else L.getAccountHead x := by
    intro x
    rw [getAccountHead_eq, signs.getAccountChain]
    split
    · exact List.getLast?_concat
    · rfl
  have hnonneg := hL.nonneg pub head hhead
  have hbalance : 0 ≤ b.balance := by
    cases hmove with
    | offers recipientPub amount nonneg covered balance settles =>
      exact (hL.bonded pub).trans covered
    | claims source offer onOffer balance settles =>
      have hoffer := (hL.offers source offer onOffer).1
      omega
    | keeps nonneg balance => omega
  have hmono : ∀ x head, L.getAccountHead x = some head →
      ∃ head', (L.afterOwn pub h acc effect b).getAccountHead x = some head' ∧
        head.index ≤ head'.index := by
    intro x old hold
    rw [hheads]
    split
    · rename_i hx
      rw [← hx, hhead] at hold
      cases hold
      exact ⟨b, rfl, by omega⟩
    · exact ⟨old, hold, le_refl _⟩
  refine ⟨⟨?_, fun x head' h' => ?_⟩, fun x => ?_, fun hash s hs => ?_⟩
  · rw [hsame.held, hoffers]
    refine sum_of_hold hL.toConserved signs.stored ?_
    have htotal := hmove.total (hL.fresh hP (haccount ▸ hhead) hhash hindex)
    rw [headBalance_append, headBalance_of_last signs.last, settledOn_append]
    omega
  · rw [hheads] at h'
    split at h'
    · cases h'
      exact hbalance
    · exact hL.nonneg x head' h'
  · rw [hsame.validatorRegistry]
    exact hL.bonded x
  · rw [hoffers] at hs
    cases hmove with
    | offers recipientPub amount nonneg covered balance settles =>
      rw [JsMap.get?_set] at hs
      split at hs
      · rename_i hnew
        cases hs
        refine ⟨nonneg, b.toBlockContent, b, hnew ▸ hhash, ?_, le_refl _⟩
        rw [hheads, haccount, if_pos rfl]
      · obtain ⟨hpos, hplaced⟩ := hL.offers hash s hs
        exact ⟨hpos, hplaced.mono hmono⟩
    | claims source offer onOffer balance settles =>
      obtain ⟨hpos, hplaced⟩ := hL.offers hash s (JsMap.get?_of_get?_delete hs).2
      exact ⟨hpos, hplaced.mono hmono⟩
    | keeps nonneg balance =>
      obtain ⟨hpos, hplaced⟩ := hL.offers hash s hs
      exact ⟨hpos, hplaced.mono hmono⟩

theorem Balanced.unsigned (hL : Balanced P L) {pub : Hex} {h : Held F}
    (stored : L.held.get? pub = some h) (acc : AccountAccumulator) :
    Balanced P (L.hold pub ⟨h.chain, acc⟩) := by
  have hchain : ∀ x, (L.hold pub ⟨h.chain, acc⟩).getAccountHead x = L.getAccountHead x := by
    intro x
    rw [getAccountHead_eq, getAccountHead_eq, getAccountChain_hold]
    split
    · rename_i hx
      rw [← hx, getAccountChain_of_held stored]
    · rfl
  refine ⟨⟨sum_of_hold hL.toConserved stored rfl, fun x head hhead => ?_⟩, hL.bonded,
    fun hash s hs => ?_⟩
  · exact hL.nonneg x head (hchain x ▸ hhead)
  · obtain ⟨hpos, hplaced⟩ := hL.offers hash s hs
    exact ⟨hpos, hplaced.mono fun x head hhead => ⟨head, by rw [hchain, hhead], le_refl _⟩⟩

/-- A new chain of one genesis block mints the genesis amount. -/
theorem Balanced.opened (hL : Balanced P L) {pub : Hex} (fresh : L.held.get? pub = none)
    {genesis : Block F} (hgenesis : MintsGenesis genesis.toBlockContent pub)
    (acc : AccountAccumulator) (identity : IdentityRegistry) :
    Balanced P (({ L with identity }.hold pub ⟨[genesis], acc⟩).indexBlock genesis) := by
  have hheads : ∀ x, (({ L with identity }.hold pub ⟨[genesis], acc⟩).indexBlock
      genesis).getAccountHead x = if pub = x then some genesis else L.getAccountHead x := by
    intro x
    refine (congrArg List.getLast?
      (getAccountChain_hold { L with identity } pub ⟨[genesis], acc⟩ x)).trans ?_
    split
    · rfl
    · rfl
  refine ⟨⟨?_, fun x head hhead => ?_⟩, hL.bonded, fun hash s hs => ?_⟩
  · change (L.held.set pub ⟨[genesis], acc⟩).total headBalance +
      L.unclaimedSends.total offered = MINT * (L.held.set pub ⟨[genesis], acc⟩).keys.length +
        (L.held.set pub ⟨[genesis], acc⟩).total settledOn
    have hsum := hL.sum
    have hbalance := JsMap.total_set_of_fresh headBalance fresh ⟨[genesis], acc⟩
    have hsettled := JsMap.total_set_of_fresh settledOn fresh ⟨[genesis], acc⟩
    have hcount := JsMap.total_set_of_fresh (fun _ => (1 : Int)) fresh ⟨[genesis], acc⟩
    rw [JsMap.total_one, JsMap.total_one] at hcount
    have hhead : headBalance ⟨[genesis], acc⟩ = MINT := by
      simp [headBalance, hgenesis.balance]
    have hnone : settledOn ⟨[genesis], acc⟩ = 0 := by
      simp [settledOn, settleAmount, hgenesis.type]
    rw [hbalance, hsettled, hcount, hhead, hnone, mul_add]
    omega
  · rw [hheads] at hhead
    split at hhead
    · cases hhead
      rw [hgenesis.balance]
      decide
    · exact hL.nonneg x head hhead
  · obtain ⟨hpos, hplaced⟩ := hL.offers hash s hs
    refine ⟨hpos, hplaced.mono fun x head hhead => ⟨head, ?_, le_refl _⟩⟩
    rw [hheads, if_neg]
    · exact hhead
    · rintro rfl
      rw [getAccountHead_eq, getAccountChain, fresh] at hhead
      cases hhead

theorem Balanced.bondStake (hL : Balanced P L) (pub : Hex) (amount : Option Int) :
    Balanced P (L.bondStake pub amount).1 := by
  have hbonded := fun x => (hL.bonded x).trans (bondedOf_le_bondStake L pub amount x)
  obtain ⟨_, h, -⟩ := bondStake_eq L pub amount
  exact hL.congr (by simp [h]) (by simp [h]) hbonded

theorem balanced_openAccount (hL : Balanced P L) (pub priv nullifier : Hex)
    (attestations : List TypedAttestation) (bond : Bool) (now : Int) :
    Balanced P (openAccount P cfg L pub priv nullifier attestations bond now).1 := by
  have outcome := openAccount_outcome P cfg L pub priv nullifier attestations bond now
  generalize openAccount P cfg L pub priv nullifier attestations bond now = result at outcome
  cases outcome with
  | refused error => exact hL
  | thrown identity => exact hL.congr rfl rfl hL.bonded
  | opened identity shard acc block admitted created =>
    obtain ⟨hcontent, -⟩ := createBlock_eq_some created
    have hgenesis : MintsGenesis block.toBlockContent pub := by
      rw [hcontent]
      exact ⟨rfl, rfl, rfl, rfl, rfl⟩
    have hopened := hL.opened admitted.fresh hgenesis acc identity
    cases bond with
    | false => exact hopened
    | true => exact hopened.bondStake pub (some MINT)

/-! ## Runs -/

/-- A call of the local path keeps the balance. -/
theorem balanced_step [LawfulJsNumber F] (hP : CollisionFree P) (hL : Balanced P L)
    (hc : c.isLocal = true) : Balanced P (step P cfg L c) := by
  have hbonded : ∀ x, 0 ≤ (step P cfg L c).validatorRegistry.bondedOf x :=
    bonded_step hL.bonded c
  cases hauthor : c.author with
  | some author =>
    obtain ⟨pub, priv, now⟩ := author
    obtain ⟨r, hstep, outcome⟩ := step_of_author P cfg L hauthor
    rw [hstep]
    rcases outcome.signs with ⟨hnone, -⟩ | ⟨h, head, b, acc, effect, signs, rfl⟩
    · cases outcome with
      | refused error => exact hL
      | thrown => exact hL
      | drafted h head content effect stored last draft =>
        obtain ⟨haccount, -⟩ := draft.header
        rcases appendOwn_cases (P := P) (L := L) h content priv effect with
          ⟨acc, heq⟩ | ⟨acc, block, -, heq⟩
        · rw [heq]
          exact hL.unsigned (haccount ▸ stored) acc
        · exact absurd (by rw [heq]) (hnone block)
    · exact hL.afterOwn hP signs
  | none =>
    cases c
    case registerAccount account =>
      obtain ⟨_, _, h⟩ := registerAccount_eq L account
      exact hL.congr (by simp [step, h]) (by simp [step, h]) hbonded
    case updateAccountFields pub username =>
      obtain ⟨_, _, h⟩ := updateAccountFields_eq L pub username
      exact hL.congr (by simp [step, h]) (by simp [step, h]) hbonded
    case bondStake pub amount => exact hL.bondStake pub amount
    case advanceEpoch betas active =>
      obtain ⟨_, _, _, _, _, h⟩ := advanceEpoch_eq P L betas active
      exact hL.congr (by simp [step, h]) (by simp [step, h]) hbonded
    case openAccount pub priv nullifier attestations bond now =>
      exact balanced_openAccount hL pub priv nullifier attestations bond now
    all_goals simp [Call.author, Call.isLocal] at hauthor hc

/-- In every state of every run of local calls the balances and the payments on offer add
up to the genesis mints and the settlements, and no balance is negative. -/
theorem value_conserved [LawfulJsNumber F] (P : Primitives F) (cfg : LedgerConfig)
    (hP : CollisionFree P) (calls : List (Call F)) (hlocal : ∀ c ∈ calls, c.isLocal = true) :
    Run.Always (step P cfg) Conserved (new P) calls :=
  Run.always_of_invariant (C := fun _ c => c.isLocal = true)
    (fun _ _ hL hc => balanced_step hP hL hc) (fun _ hL => hL.toConserved) (balanced_new P)
    (Run.stepsMeet_of_mem (fun c hc _ => hlocal c hc) (new P))

/-- Alice opens her account and pays herself five milli-UNIT, which she has not claimed. -/
theorem value_conserved_self_payment :
    Run.Always (step Sample.transparent Sample.config) Conserved (new Sample.transparent)
      [.registerAccount ⟨"alice", "alice"⟩,
        .openAccount "alice" "alice" "nullifier" [] false 0,
        .createSend "alice" "alice" (5 : Rat) "alice" 1] :=
  value_conserved Sample.transparent Sample.config Sample.collisionFree_transparent _
    (by simp [Call.isLocal])

end NeuronWeb.EngineLedger
