/-
  Ledger/Emissions: the blocks that a ledger announces with `block:added`.

  Each of the ten places that append a block announces it afterwards, and nothing else does: a
  block that `addBlock` knows already, a fork and a refused block pass without the event.
-/
import NeuronWeb.Core.SignedContent
import NeuronWeb.Ledger.Moves

set_option autoImplicit false

namespace NeuronWeb.EngineLedger

variable {F : Type}

/-! ## The event -/

/-- A `create*` call announces the block that it returns. -/
def announcedOwn : CreateResult F → Option (Block F)
  | .created block => some block
  | _ => none

/-- `addBlock` gets past its early returns for the heights that are held. -/
def isNews (L : EngineLedger F) (block : Block F) : Bool :=
  match L.held.get? block.accountId with
  | none => true
  | some h =>
    block.index ≠ 0 && h.chain.getLast?.any fun head => decide (head.index < block.index)

section Events

variable [JsNumber F] (P : Primitives F) (cfg : LedgerConfig) (L : EngineLedger F)

/-- `addBlock` announces a block that it appended, not one that it knew. -/
def announcedForeign (block : Block F) (now : Int) : Option (Block F) :=
  if L.isNews block ∧ (addBlock P L block now).2 = .success then some block else none

/-- The block for which a call emits `block:added`. -/
def announced : Call F → Option (Block F)
  | .openAccount pub priv nullifier attestations bond now =>
    announcedOwn (openAccount P cfg L pub priv nullifier attestations bond now).2
  | .createSend senderPub recipientIdentifier amount priv now =>
    announcedOwn (createSend P L senderPub recipientIdentifier amount priv now).2
  | .createReceive recipientPub sendBlockHash priv now =>
    announcedOwn (createReceive P L recipientPub sendBlockHash priv now).2
  | .createUpdate pub updates priv now => announcedOwn (createUpdate P L pub updates priv now).2
  | .createMintNft pub contentRef md priv now =>
    announcedOwn (createMintNft P L pub contentRef md priv now).2
  | .createTransferNft pub tokenId recipientIdentifier priv now =>
    announcedOwn (createTransferNft P L pub tokenId recipientIdentifier priv now).2
  | .createReceiveNft recipientPub nftSendHash priv now =>
    announcedOwn (createReceiveNft P L recipientPub nftSendHash priv now).2
  | .createBurnNft pub tokenId priv now =>
    announcedOwn (createBurnNft P L pub tokenId priv now).2
  | .createStorageRegister pub capacityGB priv deviceId now =>
    announcedOwn (createStorageRegister P L pub capacityGB priv deviceId now).2
  | .createStorageDeregister pub priv now =>
    announcedOwn (createStorageDeregister P L pub priv now).2
  | .createStorageSettle pub priv receipts periodIndex publishRoot serviceRoot now =>
    announcedOwn
      (createStorageSettle P L pub priv receipts periodIndex publishRoot serviceRoot now).2
  | .addBlock block now => announcedForeign P L block now
  | _ => none

end Events

/-! ## What is announced -/

/-- The block takes its account's chain one block further. -/
structure TakesOn (P : Primitives F) (chain : List (Block F)) (b : Block F) : Prop where
  hash : computeContentHash P b.toBlockContent = b.hash
  opens : chain.getLast? = none → b.index = 0 ∧ b.previousHash = GENESIS_PREV
  links : ∀ head, chain.getLast? = some head →
    b.index = head.index + 1 ∧ b.previousHash = head.hash

/-- A call announces the block that it appends, or it announces nothing and appends nothing. -/
inductive Announces (P : Primitives F) (L L' : EngineLedger F) : Option (Block F) → Prop
  | silent (h : ∀ x, L'.getAccountChain x = L.getAccountChain x) : Announces P L L' none
  | news (b : Block F) (next : TakesOn P (L.getAccountChain b.accountId) b)
      (h : ∀ x, L'.getAccountChain x =
        L.getAccountChain x ++ if b.accountId = x then [b] else []) :
      Announces P L L' (some b)

theorem announces_of_extend {P : Primitives F} {L L' : EngineLedger F} {b : Block F}
    (next : TakesOn P (L.getAccountChain b.accountId) b)
    (h : ∀ x, L'.getAccountChain x =
      if b.accountId = x then L.getAccountChain b.accountId ++ [b] else L.getAccountChain x) :
    Announces P L L' (some b) := by
  refine .news b next fun x => ?_
  rw [h x]
  split
  · rename_i hx
    rw [hx]
  · rw [List.append_nil]

variable [JsNumber F] {P : Primitives F} {cfg : LedgerConfig} {L : EngineLedger F}

theorem create_announces {c : Call F} {pub priv : Hex} {now : Int}
    {r : EngineLedger F × CreateResult F} (outcome : CreateOutcome P L c pub priv now r) :
    Announces P L r.1 (announcedOwn r.2) := by
  cases outcome with
  | refused error => exact .silent fun x => rfl
  | thrown => exact .silent fun x => rfl
  | drafted h head content effect stored last draft =>
    obtain ⟨haccount, hindex, hprevious, _⟩ := draft.header
    rcases appendOwn_cases (P := P) (L := L) h content priv effect with
      ⟨acc, heq⟩ | ⟨acc, block, hcreate, heq⟩
    · rw [heq]
      refine .silent fun x => ?_
      rw [getAccountChain_hold]
      split
      · rename_i hx
        rw [← hx, haccount, getAccountChain_of_held stored]
      · rfl
    · obtain ⟨rfl, hhash, -⟩ := createBlock_eq_some hcreate
      have hchain : L.getAccountChain block.accountId = h.chain := by
        rw [haccount, getAccountChain_of_held stored]
      rw [heq]
      refine announces_of_extend ⟨hhash.symm, ?_, ?_⟩ fun x => ?_
      · intro hnone
        rw [hchain, last] at hnone
        cases hnone
      · intro head' hhead'
        rw [hchain, last] at hhead'
        cases hhead'
        exact ⟨hindex, hprevious⟩
      · rw [getAccountChain_congr (draft.sameChains _ block).held]
        change (L.hold block.accountId ⟨h.chain ++ [block], acc⟩).getAccountChain x = _
        rw [getAccountChain_hold, hchain]

omit [JsNumber F] in
theorem openAccount_announces (pub priv nullifier : Hex) (attestations : List TypedAttestation)
    (bond : Bool) (now : Int) :
    Announces P L (openAccount P cfg L pub priv nullifier attestations bond now).1
      (announcedOwn (openAccount P cfg L pub priv nullifier attestations bond now).2) := by
  have outcome := openAccount_outcome P cfg L pub priv nullifier attestations bond now
  generalize openAccount P cfg L pub priv nullifier attestations bond now = result at outcome
  cases outcome with
  | refused error => exact .silent fun x => rfl
  | thrown identity => exact .silent fun x => rfl
  | opened identity shard acc block admitted created =>
    obtain ⟨hcontent, hhash, -⟩ := createBlock_eq_some created
    have haccount : block.accountId = pub := by rw [hcontent]
    have hnone : L.getAccountChain pub = [] := by simp [getAccountChain, admitted.fresh]
    refine announces_of_extend ⟨by rw [hcontent, hhash], ?_, ?_⟩ fun x => ?_
    · intro _
      rw [hcontent]
      exact ⟨rfl, rfl⟩
    · intro head hhead
      rw [haccount, hnone] at hhead
      cases hhead
    · -- bonding moves the validator registry only
      have hheld : ∀ L₀ : EngineLedger F,
          (if bond then (L₀.bondStake pub (some MINT)).1 else L₀).held = L₀.held := by
        intro L₀
        obtain ⟨registry, hbond, _⟩ := bondStake_eq L₀ pub (some MINT)
        cases bond
        · rfl
        · simp [hbond]
      rw [getAccountChain_congr (hheld _)]
      change ({ L with identity }.hold pub ⟨[block], acc⟩).getAccountChain x = _
      rw [getAccountChain_hold, haccount, hnone]
      rfl

variable {block : Block F}

omit [JsNumber F] in
theorem Known.isNews {h : Held F} {existing : Block F} (known : Known L h existing block) :
    L.isNews block = false := by
  by_cases hindex : block.index = 0
  · simp [EngineLedger.isNews, known.stored, hindex]
  · obtain ⟨head, hlast, hbelow⟩ := known.covered hindex
    simp [EngineLedger.isNews, known.stored, hlast, Int.not_lt.mpr hbelow]

theorem addBlock_announces (block : Block F) (now : Int) :
    Announces P L (addBlock P L block now).1 (announcedForeign P L block now) := by
  have hsilent : ∀ {L' : EngineLedger F} {r : AddResult}, addBlock P L block now = (L', r) →
      ¬ (L.isNews block = true ∧ r = .success) → announcedForeign P L block now = none := by
    intro L' r heq hnot
    rw [announcedForeign, heq, if_neg hnot]
  have hnews : ∀ {L' : EngineLedger F}, addBlock P L block now = (L', .success) →
      L.isNews block = true → announcedForeign P L block now = some block := by
    intro L' heq hisNews
    rw [announcedForeign, heq, if_pos ⟨hisNews, rfl⟩]
  have outcome := addBlock_outcome P L block now
  generalize hresult : addBlock P L block now = result at outcome
  cases outcome with
  | unchanged r known =>
    rw [hsilent hresult]
    · exact .silent fun x => rfl
    · rintro ⟨hisNews, hr⟩
      obtain ⟨h, existing, known⟩ := known hr
      rw [known.isNews] at hisNews
      cases hisNews
  | forked h existing error authentic forks =>
    rw [hsilent hresult (fun hboth => by cases hboth.2)]
    exact .silent fun x => getAccountChain_flagFork L existing block x
  | emptied r authentic opens refused =>
    rw [hsilent hresult (fun hboth => refused hboth.2)]
    refine .silent fun x => ?_
    rw [getAccountChain_hold]
    split
    · rename_i hx
      rw [← hx, getAccountChain, opens.fresh]
      rfl
    · rfl
  | opened acc authentic opens root =>
    have hempty : L.getAccountChain block.accountId = [] := by
      rw [getAccountChain, opens.fresh]
      rfl
    rw [hnews hresult (by simp [isNews, opens.fresh])]
    refine announces_of_extend ⟨authentic.hash, ?_, ?_⟩ fun x => ?_
    · exact fun _ => ⟨opens.index, opens.previousHash⟩
    · intro head hhead
      rw [hempty] at hhead
      cases hhead
    · rw [getAccountChain_appendForeign, getAccountChain_hold, hempty]
      split <;> rfl
  | extended h head acc authentic links checked root =>
    have hchain : L.getAccountChain block.accountId = h.chain :=
      getAccountChain_of_held links.stored
    have hindex : head.index < block.index := by
      rw [links.index]
      exact Int.lt_succ head.index
    rw [hnews hresult
      (by simp [isNews, links.stored, links.last, links.index_ne_zero, hindex])]
    refine announces_of_extend ⟨authentic.hash, ?_, ?_⟩ fun x => ?_
    · intro hnone
      rw [hchain, links.last] at hnone
      cases hnone
    · intro head' hhead'
      rw [hchain, links.last] at hhead'
      cases hhead'
      exact ⟨links.index, links.previousHash⟩
    · rw [getAccountChain_appendForeign, hchain]

/-- The calls that forget chains; no node makes them while it runs. -/
def Call.forgets : Call F → Bool
  | .purgeAccount .. => true
  | .reset => true
  | _ => false

theorem step_announces {c : Call F} (hc : c.forgets = false) :
    Announces P L (step P cfg L c) (announced P cfg L c) := by
  cases c
  case openAccount => exact openAccount_announces _ _ _ _ _ _
  case createSend => exact create_announces (createSend_outcome P L _ _ _ _ _)
  case createReceive => exact create_announces (createReceive_outcome P L _ _ _ _)
  case createUpdate => exact create_announces (createUpdate_outcome P L _ _ _ _)
  case createMintNft => exact create_announces (createMintNft_outcome P L _ _ _ _ _)
  case createTransferNft => exact create_announces (createTransferNft_outcome P L _ _ _ _ _)
  case createReceiveNft => exact create_announces (createReceiveNft_outcome P L _ _ _ _)
  case createBurnNft => exact create_announces (createBurnNft_outcome P L _ _ _ _)
  case createStorageRegister =>
    exact create_announces (createStorageRegister_outcome P L _ _ _ _ _)
  case createStorageDeregister =>
    exact create_announces (createStorageDeregister_outcome P L _ _ _)
  case createStorageSettle =>
    exact create_announces (createStorageSettle_outcome P L _ _ _ _ _ _ _)
  case addBlock => exact addBlock_announces _ _
  case purgeAccount => cases hc
  case reset => cases hc
  all_goals exact .silent fun x => getAccountChain_congr (step_held rfl) x

/-! ## Linear chains -/

/-- The blocks of the account `x`, each at its height and linked to the one before. -/
structure Linear (P : Primitives F) (x : Hex) (chain : List (Block F)) : Prop where
  account : ∀ b ∈ chain, b.accountId = x
  hash : ∀ b ∈ chain, computeContentHash P b.toBlockContent = b.hash
  height : ∀ (i : Nat) (b : Block F), chain[i]? = some b → b.index = i
  genesis : ∀ b, chain[0]? = some b → b.previousHash = GENESIS_PREV
  links : ∀ (i : Nat) (b b' : Block F), chain[i]? = some b → chain[i + 1]? = some b' →
    b'.previousHash = b.hash

omit [JsNumber F] in
theorem linear_nil (P : Primitives F) (x : Hex) : Linear P x ([] : List (Block F)) where
  account := by simp
  hash := by simp
  height := by simp
  genesis := by simp
  links := by simp

section Linear

omit [JsNumber F]

variable {x : Hex} {chain : List (Block F)} {b : Block F}

theorem Linear.concat (h : Linear P x chain) (haccount : b.accountId = x)
    (next : TakesOn P chain b) : Linear P x (chain ++ [b]) where
  account b' hb' := by
    rcases List.mem_append.mp hb' with hold | hnew
    · exact h.account b' hold
    · rw [List.mem_singleton.mp hnew, haccount]
  hash b' hb' := by
    rcases List.mem_append.mp hb' with hold | hnew
    · exact h.hash b' hold
    · rw [List.mem_singleton.mp hnew, next.hash]
  height := height_concat h.height (fun hnone => (next.opens hnone).1)
    fun head hhead => (next.links head hhead).1
  genesis first hfirst := by
    cases hchain : chain with
    | nil =>
      rw [hchain] at hfirst
      rw [← Option.some.inj hfirst]
      exact (next.opens (by rw [hchain]; rfl)).2
    | cons genesis rest =>
      rw [hchain] at hfirst
      exact h.genesis first (by rw [hchain]; exact hfirst)
  links i b₁ b₂ h₁ h₂ := by
    have hlt := (List.getElem?_eq_some_iff.mp h₂).1
    rw [List.length_append, List.length_singleton] at hlt
    rw [List.getElem?_append_left (by omega)] at h₁
    by_cases hi : i + 1 < chain.length
    · rw [List.getElem?_append_left hi] at h₂
      exact h.links i b₁ b₂ h₁ h₂
    · -- the new block follows the head
      have hlen : i + 1 = chain.length := by omega
      rw [hlen, List.getElem?_concat_length] at h₂
      have hhead : chain.getLast? = some b₁ := by
        rw [List.getLast?_eq_getElem?, ← hlen]
        exact h₁
      rw [← Option.some.inj h₂]
      exact (next.links b₁ hhead).2

theorem Linear.below (h : Linear P x chain) {kept : List (Block F)} (hkept : kept <+: chain) :
    Linear P x kept := by
  have hat : ∀ {i : Nat} {b : Block F}, kept[i]? = some b → chain[i]? = some b := by
    intro i b hi
    obtain ⟨rest, rfl⟩ := hkept
    rwa [List.getElem?_append_left (List.getElem?_eq_some_iff.mp hi).1]
  exact ⟨fun b hb => h.account b (hkept.subset hb), fun b hb => h.hash b (hkept.subset hb),
    fun i b hi => h.height i b (hat hi), fun b hb => h.genesis b (hat hb),
    fun i b b' hi hi' => h.links i b b' (hat hi) (hat hi')⟩

theorem Announces.linear {L' : EngineLedger F} {event : Option (Block F)}
    (announces : Announces P L L' event) (h : ∀ x, Linear P x (L.getAccountChain x)) (x : Hex) :
    Linear P x (L'.getAccountChain x) := by
  cases announces with
  | silent hsame => exact hsame x ▸ h x
  | news b next hchain =>
    rw [hchain]
    split
    case isTrue hx => exact (h x).concat hx (hx ▸ next)
    case isFalse => exact (List.append_nil _).symm ▸ h x

theorem TakesOn.not_mem (next : TakesOn P chain b) (h : Linear P x chain) : b ∉ chain := by
  intro hmem
  obtain ⟨i, hi⟩ := List.mem_iff_getElem?.mp hmem
  have hlt := (List.getElem?_eq_some_iff.mp hi).1
  have hheight := height_concat h.height (fun hnone => (next.opens hnone).1)
    (fun head hhead => (next.links head hhead).1) chain.length b (List.getElem?_concat_length ..)
  rw [h.height i b hi] at hheight
  omega

theorem Linear.eq_of_index (h : Linear P x chain) {b' : Block F} (hb : b ∈ chain)
    (hb' : b' ∈ chain) (hindex : b.index = b'.index) : b = b' := by
  obtain ⟨i, hi⟩ := List.mem_iff_getElem?.mp hb
  obtain ⟨j, hj⟩ := List.mem_iff_getElem?.mp hb'
  rw [h.height i b hi, h.height j b' hj] at hindex
  have hij : i = j := by omega
  rw [hij, hj] at hi
  exact (Option.some.inj hi).symm

/-- No block content hashes to the zeros that a genesis block names as its predecessor. -/
def ZeroIsNoDigest (P : Primitives F) : Prop :=
  ∀ c : BlockContent F, computeContentHash P c ≠ GENESIS_PREV

variable (hsha : Function.Injective P.sha256) (hjson : FaithfulJson P)
  (hzero : ZeroIsNoDigest P)

include hsha hjson hzero

/-- A chain has one block behind a predecessor. -/
theorem Linear.eq_of_previousHash (h : Linear P x chain) {b' : Block F} (hb : b ∈ chain)
    (hb' : b' ∈ chain) (hprevious : b.previousHash = b'.previousHash) : b = b' := by
  -- behind a genesis block stands a digest
  have hlater : ∀ {i : Nat} {b₀ b₁ : Block F}, chain[i]? = some b₀ → chain[i + 1]? = some b₁ →
      b₁.previousHash ≠ GENESIS_PREV := by
    intro i b₀ b₁ h₀ h₁
    rw [h.links i b₀ b₁ h₀ h₁, ← h.hash b₀ (List.mem_of_getElem? h₀)]
    exact hzero _
  obtain ⟨i, hi⟩ := List.mem_iff_getElem?.mp hb
  obtain ⟨j, hj⟩ := List.mem_iff_getElem?.mp hb'
  have hbefore : ∀ {k : Nat} {b₁ : Block F}, chain[k + 1]? = some b₁ →
      ∃ b₀, chain[k]? = some b₀ := by
    intro k b₁ h₁
    have hlt := (List.getElem?_eq_some_iff.mp h₁).1
    exact ⟨chain[k], List.getElem?_eq_getElem (by omega)⟩
  cases i with
  | zero =>
    cases j with
    | zero => exact Option.some.inj (hi.symm.trans hj)
    | succ j =>
      obtain ⟨c, hc⟩ := hbefore hj
      exact absurd (hprevious.symm.trans (h.genesis b hi)) (hlater hc hj)
  | succ i =>
    obtain ⟨c, hc⟩ := hbefore hi
    cases j with
    | zero => exact absurd (hprevious.trans (h.genesis b' hj)) (hlater hc hi)
    | succ j =>
      obtain ⟨c', hc'⟩ := hbefore hj
      -- the two predecessors have one hash, so they stand at one height
      have hhash : c.hash = c'.hash := by
        rw [← h.links i c b hc hi, ← h.links j c' b' hc' hj, hprevious]
      have hcontent : computeContentHash P c.toBlockContent =
          computeContentHash P c'.toBlockContent := by
        rw [h.hash c (List.mem_of_getElem? hc), h.hash c' (List.mem_of_getElem? hc'), hhash]
      have hindex := (sameSigned_of_hash hsha hjson hcontent).index
      rw [h.height i c hc, h.height j c' hc'] at hindex
      have hij : i = j := by omega
      rw [hij, hj] at hi
      exact (Option.some.inj hi).symm

end Linear

theorem linear_step (h : ∀ x, Linear P x (L.getAccountChain x)) (c : Call F) (x : Hex) :
    Linear P x ((step P cfg L c).getAccountChain x) := by
  cases hc : c.forgets with
  | true =>
    cases c
    case purgeAccount pub => exact (h x).below (getAccountChain_purgeAccount L pub x)
    case reset => exact linear_nil P x
    all_goals cases hc
  | false =>
    exact (step_announces hc).linear h x

/-- Own blocks, blocks of others, proofs, evidence, purges and resets, in any order: each held
chain has one block of its account at each height, from the genesis block on, with its own hash
and with the hash of the block before it. -/
theorem chains_linear (P : Primitives F) (cfg : LedgerConfig) (calls : List (Call F)) :
    Run.Always (step P cfg) (fun L => ∀ x, Linear P x (L.getAccountChain x)) (new P) calls :=
  Run.always_of_invariant (C := fun _ _ => True) (fun _ c h _ => linear_step h c)
    (fun _ h => h) (linear_nil P) (Run.stepsMeet_of_forall (fun _ _ => trivial) _ _)

/-! ## Runs -/

/-- Two announced blocks that are no siblings and no rivals for a height. -/
def Apart (b b' : Block F) : Prop :=
  b.accountId = b'.accountId → b.index ≠ b'.index ∧ b.previousHash ≠ b'.previousHash

/-- What has been announced is on linear chains, and no two of it are siblings. -/
structure Emitted (P : Primitives F) (L : EngineLedger F) (news : List (Block F)) : Prop where
  linear : ∀ x, Linear P x (L.getAccountChain x)
  onChain : ∀ b ∈ news, b ∈ L.getAccountChain b.accountId
  apart : news.Pairwise Apart

omit [JsNumber F] in
theorem emitted_new (P : Primitives F) : Emitted P (new P) [] where
  linear := linear_nil P
  onChain := by simp
  apart := .nil

section Emitted

variable (hsha : Function.Injective P.sha256) (hjson : FaithfulJson P)
  (hzero : ZeroIsNoDigest P)

include hsha hjson hzero

omit [JsNumber F] in
theorem Emitted.announce {L' : EngineLedger F} {news : List (Block F)} {event : Option (Block F)}
    (h : Emitted P L news) (announces : Announces P L L' event) :
    Emitted P L' (news ++ event.toList) := by
  have hlinear := announces.linear h.linear
  cases announces with
  | silent hchain =>
    rw [Option.toList_none, List.append_nil]
    refine ⟨hlinear, fun b hb => ?_, h.apart⟩
    rw [hchain]
    exact h.onChain b hb
  | news b next hchain =>
    have hself : L'.getAccountChain b.accountId = L.getAccountChain b.accountId ++ [b] := by
      rw [hchain, if_pos rfl]
    have honChain : ∀ b' ∈ news, b' ∈ L'.getAccountChain b'.accountId := by
      intro b' hb'
      rw [hchain]
      exact List.mem_append_left _ (h.onChain b' hb')
    have hb : b ∈ L'.getAccountChain b.accountId := by
      rw [hself]
      exact List.mem_append_right _ (List.mem_singleton_self b)
    refine ⟨hlinear, fun b' hb' => ?_, List.pairwise_append.mpr
      ⟨h.apart, List.pairwise_singleton _ _, fun b' hb' b'' hb'' haccount => ?_⟩⟩
    · rcases List.mem_append.mp hb' with hold | hnew
      · exact honChain b' hold
      · rw [List.mem_singleton.mp hnew]
        exact hb
    · rw [Option.toList_some, List.mem_singleton] at hb''
      subst hb''
      -- an older block with the height or the predecessor of the new one would be it
      have hmem : b' ∈ L.getAccountChain b''.accountId := haccount ▸ h.onChain b' hb'
      have hne : b' ≠ b'' := by
        rintro rfl
        exact next.not_mem (h.linear _) hmem
      have hmem' : b' ∈ L'.getAccountChain b''.accountId := haccount ▸ honChain b' hb'
      exact ⟨fun hindex => hne ((hlinear _).eq_of_index hmem' hb hindex),
        fun hprevious => hne
          ((hlinear _).eq_of_previousHash hsha hjson hzero hmem' hb hprevious)⟩

end Emitted

end NeuronWeb.EngineLedger
