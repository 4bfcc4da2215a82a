/-
  Ledger/AddBlock: applying a block received from a peer (`ledger/engine-ledger.ts`,
  `addBlock`).

  The checks of the source come in three groups: authenticity, linkage to the held
  chain, and one rule for each block type.  The type rules (`checkBlock`) and the
  effects (`applyBlock`) are the two long `if` chains of the source, written as matches
  on the type; neither chain has an arm for an `open` block above index 0.
-/
import NeuronWeb.Ledger.Create

set_option autoImplicit false

namespace NeuronWeb

variable {F : Type}

/-- What `addBlock` answers. -/
inductive AddResult where
  | success
  | failure (error : String)
  /-- The call throws. -/
  | thrown
  deriving DecidableEq, Repr

namespace EngineLedger

section Checks

variable [JsNumber F] (P : Primitives F) (L : EngineLedger F)

/-- The rule for a `send` block on `head`. -/
def checkSend (head block : BlockContent F) : Option String :=
  match block.amount with
  | none => some "send amount must be positive"
  | some amount =>
    if amount ≤ 0 then some "send amount must be positive"
    else if block.balance < 0 ∨ block.balance ≠ head.balance - amount then
      some "send balance inconsistent"
    else none

/-- The block a claim names as its source, when this node holds it. -/
def sourceBlock (block : BlockContent F) : Option (Block F) :=
  match block.sourceHash with
  | some source => if source = "" then none else L.allBlocks.get? source
  | none => none

/-- The rule for a `receive` block on `head`. -/
def checkReceive (head block : BlockContent F) : Option String :=
  match block.amount with
  | none => some "receive amount must be positive"
  | some amount =>
    if amount ≤ 0 then some "receive amount must be positive"
    else if block.balance ≠ head.balance + amount then some "receive balance inconsistent"
    else
      match L.sourceBlock block with
      | some src =>
        if src.type ≠ .send ∨ src.recipient ≠ some block.accountId ∨
            src.amount ≠ block.amount then
          some "receive does not match source send"
        else none
      | none => none

/-- The rule for an `nft-mint` block on `head`. -/
def checkNftMint (head block : BlockContent F) : Option String :=
  if block.balance ≠ head.balance then some "nft-mint must preserve balance"
  else if !truthy block.tokenId || !truthy block.contentRef then
    some "nft-mint missing token/content"
  else
    -- uniqueness reads the records that only a mint or a burn writes, not the owner
    let tokenId := block.tokenId.getD ""
    if L.nftInfo.has tokenId || L.burnedNfts.has tokenId then
      some "nft tokenId already exists"
    else none

/-- The rule for an `nft-send` block on `head`. -/
def checkNftSend (head : BlockContent F) (block : Block F) : Option String :=
  if block.balance ≠ head.balance then some "nft-send must preserve balance"
  else if !truthy block.tokenId || !truthy block.recipient then
    some "nft-send missing token/recipient"
  else if L.nftOwner.get? (block.tokenId.getD "") ≠ some block.accountId ∧
      L.claimedNftTransfers.has block.hash = false then
    some "nft-send: not the owner"
  else none

/-- The rule for an `nft-receive` block on `head`. -/
def checkNftReceive (head block : BlockContent F) : Option String :=
  if block.balance ≠ head.balance then some "nft-receive must preserve balance"
  else if !truthy block.tokenId || !truthy block.sourceHash then
    some "nft-receive missing token/source"
  else
    match L.sourceBlock block with
    | some src =>
      if src.type ≠ .nftSend ∨ src.recipient ≠ some block.accountId ∨
          src.tokenId ≠ block.tokenId then
        some "nft-receive does not match source"
      else none
    | none => none

/-- The rule for an `nft-burn` block on `head`. -/
def checkNftBurn (head block : BlockContent F) : Option String :=
  if block.balance ≠ head.balance then some "nft-burn must preserve balance"
  else if !truthy block.tokenId then some "nft-burn missing token"
  else if L.nftOwner.get? (block.tokenId.getD "") ≠ some block.accountId then
    some "nft-burn: not the owner"
  else none

/-- The rule for a `storage-settle` block on `head`. -/
def checkStorageSettle (head block : BlockContent F) : Option String :=
  match block.amount with
  | none => some "storage-settle amount must be positive"
  | some amount =>
    if amount ≤ 0 then some "storage-settle amount must be positive"
    else if block.balance ≠ head.balance + amount then
      some "storage-settle balance inconsistent"
    else ProviderLedger.validate P L.providerLedger block

/-- The rule for a `storage-register` or `storage-deregister` block on `head`. -/
def checkStorage (head block : BlockContent F) : Option String :=
  if block.balance ≠ head.balance then some (block.type.tag ++ " must preserve balance")
  else ProviderLedger.validate P L.providerLedger block

/-- The rule of the block's type: the error, if any. -/
def checkBlock (head block : Block F) : Option String :=
  match block.type with
  | .open => none
  | .update =>
    if block.balance ≠ head.balance then some "update must preserve balance" else none
  | .send => checkSend head.toBlockContent block.toBlockContent
  | .receive => L.checkReceive head.toBlockContent block.toBlockContent
  | .nftMint => L.checkNftMint head.toBlockContent block.toBlockContent
  | .nftSend => L.checkNftSend head.toBlockContent block
  | .nftReceive => L.checkNftReceive head.toBlockContent block.toBlockContent
  | .nftBurn => L.checkNftBurn head.toBlockContent block.toBlockContent
  | .storageRegister => checkStorage P L head.toBlockContent block.toBlockContent
  | .storageDeregister => checkStorage P L head.toBlockContent block.toBlockContent
  | .storageSettle => checkStorageSettle P L head.toBlockContent block.toBlockContent

/-! ## Effects -/

/-- Offer a foreign send, unless a receive that replayed first has claimed it. -/
def applySend (block : Block F) : EngineLedger F :=
  match block.recipient, block.amount with
  | some recipient, some amount =>
    if recipient = "" ∨ L.claimedSends.has block.hash = true then L
    else L.offerSend block.hash block.accountId recipient (JsNumber.ofInt amount)
  | _, _ => L

def applyReceive (block : Block F) : EngineLedger F :=
  match block.sourceHash with
  | some source => if source = "" then L else L.claimSend source
  | none => L

def applyUpdate (block : Block F) : EngineLedger F :=
  match block.updates with
  | some updates => L.applyAccountUpdate block.accountId updates
  | none => L

/-- The effect of an appended block on everything but the chains. -/
def applyBlock (block : Block F) : EngineLedger F :=
  match block.type with
  | .open => L
  | .send => L.applySend block
  | .receive => L.applyReceive block
  | .update => L.applyUpdate block
  | .nftMint => L.applyNftMint block
  | .nftSend => L.applyNftSend block
  | .nftReceive => L.applyNftReceive block
  | .nftBurn => L.applyNftBurn block
  | .storageRegister => applyStorage P L block
  | .storageDeregister => applyStorage P L block
  | .storageSettle => applyStorage P L block

/-- The state after a foreign block has been appended to the chain `h`. -/
def appendForeign (h : Held F) (acc : AccountAccumulator) (block : Block F) (now : Int) :
    EngineLedger F :=
  let L := applyBlock P (L.hold block.accountId ⟨h.chain ++ [block], acc⟩) block
  let L := L.indexBlock block
  { L with appliedAt := L.appliedAt.set block.hash now }

/-- The tail of `addBlock`: check the accumulator root, append, apply, index. -/
def commitBlock (h : Held F) (block : Block F) (now : Int) : EngineLedger F × AddResult :=
  match h.acc.append block.hash with
  | none => (L, .thrown)
  | some acc =>
    if acc.rootHex P ≠ block.accumulatorRoot then
      (L, .failure "accumulator root mismatch")
    else (appendForeign P L h acc block now, .success)

/-- The existing block at the height of `block`: `h.chain[block.index]`. -/
def blockAt (chain : List (Block F)) (index : Int) : Option (Block F) :=
  if index < 0 then none else chain[index.toNat]?

/-- Flag the fork between a held block and `block`, and keep the sibling. -/
def flagFork (existing block : Block F) : EngineLedger F :=
  (L.flagEquivocation existing block).indexBlock block

/-- The branch of `addBlock` for a block at index 0. -/
def addGenesis (block : Block F) (now : Int) : EngineLedger F × AddResult :=
  if block.type ≠ .open ∨ block.previousHash ≠ GENESIS_PREV then (L, .failure "bad genesis")
  else if block.balance ≠ MINT then
    (L, .failure "open must mint exactly the genesis amount")
  else
    match L.held.get? block.accountId with
    | some h =>
      match h.chain with
      | [] => (L, .thrown)
      | first :: _ =>
        if first.hash = block.hash then (L, .success)
        else (L.flagFork first block, .failure "conflicting open")
    | none =>
      -- the empty chain is stored before the root is checked, and stays on a mismatch
      commitBlock P (L.hold block.accountId ⟨[], []⟩) ⟨[], []⟩ block now

/-- The branch of `addBlock` for a block above index 0. -/
def addNext (block : Block F) (now : Int) : EngineLedger F × AddResult :=
  match L.held.get? block.accountId with
  | none => (L, .failure "missing prior chain")
  | some h =>
    match h.chain.getLast? with
    | none => (L, .thrown)
    | some head =>
      if block.index ≤ head.index then
        match blockAt h.chain block.index with
        | some existing =>
          if existing.hash = block.hash then (L, .success)
          else (L.flagFork existing block, .failure "stale/conflicting")
        | none => (L, .failure "stale/conflicting")
      else if block.index ≠ head.index + 1 then (L, .failure "non-sequential")
      else if block.previousHash ≠ head.hash then (L, .failure "previousHash mismatch")
      else
        match checkBlock P L head block with
        | some error => (L, .failure error)
        | none => commitBlock P L h block now

/-- Apply a block received from a peer. -/
def addBlock (block : Block F) (now : Int) : EngineLedger F × AddResult :=
  if computeContentHash P block.toBlockContent ≠ block.hash then
    (L, .failure "content hash mismatch")
  else if !verifyBlockSignature P block then (L, .failure "invalid signature")
  else if L.equivocated.has block.accountId then (L, .failure "account equivocated")
  else if block.index = 0 then addGenesis P L block now
  else addNext P L block now

end Checks

/-! ## What `addBlock` can do -/

/-- A block that is what its hash says, signed by its account, which is not frozen. -/
structure Authentic (P : Primitives F) (L : EngineLedger F) (block : Block F) : Prop where
  hash : computeContentHash P block.toBlockContent = block.hash
  signature : verifyBlockSignature P block = true
  notFrozen : L.equivocated.has block.accountId = false

/-- A genesis block for an account that is not held yet. -/
structure OpensChain (L : EngineLedger F) (block : Block F) : Prop where
  index : block.index = 0
  type : block.type = .open
  previousHash : block.previousHash = GENESIS_PREV
  balance : block.balance = MINT
  fresh : L.held.get? block.accountId = none

/-- A block that continues the held chain `h` behind its head. -/
structure Links (L : EngineLedger F) (h : Held F) (head block : Block F) : Prop where
  stored : L.held.get? block.accountId = some h
  last : h.chain.getLast? = some head
  index_ne_zero : block.index ≠ 0
  index : block.index = head.index + 1
  previousHash : block.previousHash = head.hash

/-- The accumulator `acc` of the chain with `block` appended has the root the block names. -/
structure RootMatches (P : Primitives F) (h : Held F) (block : Block F)
    (acc : AccountAccumulator) : Prop where
  append : h.acc.append block.hash = some acc
  root : acc.rootHex P = block.accumulatorRoot

/-- `existing` is held at the height of `block`, which is a different block; a genesis
block is compared only when it is a proper one. -/
structure Forks (L : EngineLedger F) (h : Held F) (existing block : Block F) : Prop where
  stored : L.held.get? block.accountId = some h
  height : blockAt h.chain block.index = some existing
  hash_ne : existing.hash ≠ block.hash
  genesis : block.index = 0 →
    block.type = .open ∧ block.previousHash = GENESIS_PREV ∧ block.balance = MINT
  covered : block.index ≠ 0 → ∃ head, h.chain.getLast? = some head ∧ block.index ≤ head.index

/-- `existing`, held in `h` at or below its head, is `block`. -/
structure Known (L : EngineLedger F) (h : Held F) (existing block : Block F) : Prop where
  stored : L.held.get? block.accountId = some h
  mem : existing ∈ h.chain
  hash : existing.hash = block.hash
  covered : block.index ≠ 0 → ∃ head, h.chain.getLast? = some head ∧ block.index ≤ head.index

/-- The account is held with the empty chain `h`, which makes `addBlock` throw. -/
structure Stuck (P : Primitives F) (L : EngineLedger F) (h : Held F) (block : Block F) :
    Prop where
  authentic : Authentic P L block
  stored : L.held.get? block.accountId = some h
  empty : h.chain = []
  genesis : block.index = 0 →
    block.type = .open ∧ block.previousHash = GENESIS_PREV ∧ block.balance = MINT

/-- The outcomes of `addBlock`, guards included. -/
inductive AddOutcome [JsNumber F] (P : Primitives F) (L : EngineLedger F) (block : Block F)
    (now : Int) : EngineLedger F × AddResult → Prop where
  /-- Refused, or already held. -/
  | unchanged (r : AddResult) (known : r = .success → ∃ h existing, Known L h existing block)
      (stuck : r = .thrown → ∃ h, Stuck P L h block) : AddOutcome P L block now (L, r)
  /-- A fork of a held block: frozen when the two prove a double-spend, and kept. -/
  | forked (h : Held F) (existing : Block F) (error : String) (authentic : Authentic P L block)
      (forks : Forks L h existing block) :
      AddOutcome P L block now (L.flagFork existing block, .failure error)
  /-- A genesis block whose accumulator root is wrong leaves its empty chain behind. -/
  | emptied (r : AddResult) (authentic : Authentic P L block) (opens : OpensChain L block)
      (refused : r ≠ .success) (answered : r ≠ .thrown) :
      AddOutcome P L block now (L.hold block.accountId ⟨[], []⟩, r)
  | opened (acc : AccountAccumulator) (authentic : Authentic P L block)
      (opens : OpensChain L block) (root : RootMatches P ⟨[], []⟩ block acc) :
      AddOutcome P L block now
        (appendForeign P (L.hold block.accountId ⟨[], []⟩) ⟨[], []⟩ acc block now, .success)
  | extended (h : Held F) (head : Block F) (acc : AccountAccumulator)
      (authentic : Authentic P L block) (links : Links L h head block)
      (checked : checkBlock P L head block = none) (root : RootMatches P h block acc) :
      AddOutcome P L block now (appendForeign P L h acc block now, .success)

section Outcomes

variable [JsNumber F] {P : Primitives F} {L : EngineLedger F} {block : Block F}

omit [JsNumber F] in
theorem mem_of_blockAt {chain : List (Block F)} {index : Int}
    (h : blockAt chain index = some block) : block ∈ chain := by
  unfold blockAt at h
  split at h
  · cases h
  · exact List.mem_of_getElem? h

omit [JsNumber F] in
theorem Authentic.append (authentic : Authentic P L block) (acc : AccountAccumulator) :
    ∃ acc', acc.append block.hash = some acc' := by
  rw [← authentic.hash]
  exact ⟨_, append_computeContentHash P block.toBlockContent acc⟩

theorem commitBlock_cases {L₀ : EngineLedger F} (authentic : Authentic P L₀ block) (h : Held F)
    (now : Int) :
    (∃ error, commitBlock P L h block now = (L, .failure error)) ∨
      ∃ acc, RootMatches P h block acc ∧
        commitBlock P L h block now = (appendForeign P L h acc block now, .success) := by
  obtain ⟨acc, happend⟩ := authentic.append h.acc
  simp only [commitBlock, happend]
  by_cases hroot : acc.rootHex P = block.accumulatorRoot
  · exact .inr ⟨acc, ⟨happend, hroot⟩, by simp [hroot]⟩
  · exact .inl ⟨"accumulator root mismatch", by simp [hroot]⟩

theorem addGenesis_outcome (authentic : Authentic P L block) (hindex : block.index = 0)
    (now : Int) : AddOutcome P L block now (addGenesis P L block now) := by
  unfold addGenesis
  split
  · exact .unchanged _ (by simp) (by simp)
  · rename_i hgenesis
    simp only [not_or, Decidable.not_not] at hgenesis
    split
    · exact .unchanged _ (by simp) (by simp)
    · rename_i hbalance
      rw [Decidable.not_not] at hbalance
      cases hheld : L.held.get? block.accountId with
      | some h =>
        cases hchain : h.chain with
        | nil =>
          simp only [hchain]
          exact .unchanged _ (by simp) fun _ =>
            ⟨h, authentic, hheld, hchain, fun _ => ⟨hgenesis.1, hgenesis.2, hbalance⟩⟩
        | cons first rest =>
          simp only [hchain]
          split
          · rename_i hhash
            exact .unchanged _ (fun _ =>
              ⟨h, first, hheld, by simp [hchain], hhash, fun h => absurd hindex h⟩) (by simp)
          · rename_i hne
            exact .forked h first _ authentic
              ⟨hheld, by simp [blockAt, hindex, hchain], hne,
                fun _ => ⟨hgenesis.1, hgenesis.2, hbalance⟩, fun h => absurd hindex h⟩
      | none =>
        have opens : OpensChain L block :=
          ⟨hindex, hgenesis.1, hgenesis.2, hbalance, hheld⟩
        rcases commitBlock_cases (L := L.hold block.accountId ⟨[], []⟩) authentic ⟨[], []⟩ now
          with ⟨error, heq⟩ | ⟨acc, root, heq⟩
        · simp only [heq]
          exact .emptied _ authentic opens (by simp) (by simp)
        · simp only [heq]
          exact .opened acc authentic opens root

theorem addNext_outcome (authentic : Authentic P L block) (hindex : block.index ≠ 0)
    (now : Int) : AddOutcome P L block now (addNext P L block now) := by
  unfold addNext
  cases hheld : L.held.get? block.accountId with
  | none => exact .unchanged _ (by simp) (by simp)
  | some h =>
    cases hhead : h.chain.getLast? with
    | none =>
      simp only [hhead]
      exact .unchanged _ (by simp) fun _ => ⟨h, authentic, hheld,
        List.getLast?_eq_none_iff.mp hhead, fun hzero => absurd hzero hindex⟩
    | some head =>
      simp only [hhead]
      split
      · rename_i hbelow
        -- at or below the head: a known block, a fork, or nothing at that height
        cases hat : blockAt h.chain block.index with
        | none => exact .unchanged _ (by simp) (by simp)
        | some existing =>
          simp only
          split
          · rename_i hhash
            exact .unchanged _ (fun _ => ⟨h, existing, hheld, mem_of_blockAt hat, hhash,
              fun _ => ⟨head, hhead, hbelow⟩⟩) (by simp)
          · rename_i hne
            exact .forked h existing _ authentic ⟨hheld, hat, hne,
              fun h => absurd h hindex, fun _ => ⟨head, hhead, hbelow⟩⟩
      · split
        · exact .unchanged _ (by simp) (by simp)
        · rename_i hnext
          split
          · exact .unchanged _ (by simp) (by simp)
          · rename_i hprev
            rw [Decidable.not_not] at hnext hprev
            cases hcheck : checkBlock P L head block with
            | some error => exact .unchanged _ (by simp) (by simp)
            | none =>
              have links : Links L h head block :=
                ⟨hheld, hhead, hindex, hnext, hprev⟩
              rcases commitBlock_cases (L := L) authentic h now with
                ⟨error, heq⟩ | ⟨acc, root, heq⟩
              · simp only [heq]
                exact .unchanged _ (by simp) (by simp)
              · simp only [heq]
                exact .extended h head acc authentic links hcheck root

theorem addBlock_outcome (P : Primitives F) (L : EngineLedger F) (block : Block F)
    (now : Int) : AddOutcome P L block now (addBlock P L block now) := by
  unfold addBlock
  by_cases hhash : computeContentHash P block.toBlockContent = block.hash
  · cases hsig : verifyBlockSignature P block with
    | false =>
      simp only [hhash, ne_eq, not_true_eq_false, if_false, Bool.not_false, if_true]
      exact .unchanged _ (by simp) (by simp)
    | true =>
      cases hfrozen : L.equivocated.has block.accountId with
      | true =>
        simp only [hhash, ne_eq, not_true_eq_false, if_false, Bool.not_true,
          Bool.false_eq_true, if_true]
        exact .unchanged _ (by simp) (by simp)
      | false =>
        have authentic : Authentic P L block := ⟨hhash, hsig, hfrozen⟩
        simp only [hhash, ne_eq, not_true_eq_false, if_false, Bool.not_true,
          Bool.false_eq_true]
        split
        · rename_i hindex
          exact addGenesis_outcome authentic hindex now
        · rename_i hindex
          exact addNext_outcome authentic hindex now
  · simp only [ne_eq, hhash, not_false_eq_true, if_true]
    exact .unchanged _ (by simp) (by simp)

theorem addBlock_forks {h : Held F} {existing : Block F} (now : Int)
    (authentic : Authentic P L block) (forks : Forks L h existing block) :
    ∃ error, addBlock P L block now = (L.flagFork existing block, .failure error) := by
  have hheight := forks.height
  unfold addBlock
  simp only [authentic.hash, ne_eq, not_true_eq_false, if_false, authentic.signature,
    Bool.not_true, Bool.false_eq_true, authentic.notFrozen]
  by_cases hindex : block.index = 0
  · obtain ⟨htype, hprev, hbalance⟩ := forks.genesis hindex
    cases hchain : h.chain with
    | nil => simp [blockAt, hchain] at hheight
    | cons first rest =>
      have hfirst : first = existing := by simpa [blockAt, hindex, hchain] using hheight
      subst hfirst
      exact ⟨_, by simp [hindex, addGenesis, htype, hprev, hbalance, forks.stored, hchain,
        forks.hash_ne]; rfl⟩
  · obtain ⟨head, hlast, hbelow⟩ := forks.covered hindex
    exact ⟨_, by simp [hindex, addNext, forks.stored, hlast, hbelow, hheight,
      forks.hash_ne]; rfl⟩

theorem addBlock_opens {acc : AccountAccumulator} (now : Int) (authentic : Authentic P L block)
    (opens : OpensChain L block) (root : RootMatches P ⟨[], []⟩ block acc) :
    addBlock P L block now =
      (appendForeign P (L.hold block.accountId ⟨[], []⟩) ⟨[], []⟩ acc block now, .success) := by
  unfold addBlock
  simp only [authentic.hash, ne_eq, not_true_eq_false, if_false, authentic.signature,
    Bool.not_true, Bool.false_eq_true, authentic.notFrozen, opens.index, if_true]
  unfold addGenesis
  simp only [opens.type, opens.previousHash, opens.balance, opens.fresh, ne_eq,
    not_true_eq_false, or_self, if_false, commitBlock, root.append, root.root]

theorem addBlock_extends {h : Held F} {head : Block F} {acc : AccountAccumulator} (now : Int)
    (authentic : Authentic P L block) (links : Links L h head block)
    (checked : checkBlock P L head block = none) (root : RootMatches P h block acc) :
    addBlock P L block now = (appendForeign P L h acc block now, .success) := by
  have hnot : ¬ head.index + 1 ≤ head.index := by omega
  unfold addBlock
  simp only [authentic.hash, ne_eq, not_true_eq_false, if_false, authentic.signature,
    Bool.not_true, Bool.false_eq_true, authentic.notFrozen, links.index_ne_zero]
  unfold addNext
  simp only [links.stored, links.last, links.index, hnot, if_false, ne_eq, not_true_eq_false,
    links.previousHash, checked, commitBlock, root.append, root.root]

theorem addBlock_refuses {h : Held F} {head : Block F} {error : String} (now : Int)
    (authentic : Authentic P L block) (links : Links L h head block)
    (checked : checkBlock P L head block = some error) :
    addBlock P L block now = (L, .failure error) := by
  have hnot : ¬ head.index + 1 ≤ head.index := by omega
  unfold addBlock
  simp only [authentic.hash, ne_eq, not_true_eq_false, if_false, authentic.signature,
    Bool.not_true, Bool.false_eq_true, authentic.notFrozen, links.index_ne_zero]
  unfold addNext
  simp only [links.stored, links.last, links.index, hnot, if_false, ne_eq, not_true_eq_false,
    links.previousHash, checked]

end Outcomes

end EngineLedger

end NeuronWeb
