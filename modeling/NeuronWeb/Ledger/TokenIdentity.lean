/-
  Ledger/TokenIdentity: what a token id says about the mint that carries it.

  The id of a token is the hash of its minter, height and content.  It is computed where
  the token is minted and compared nowhere: `verifyMintProof`, `registerVerifiedMint`,
  `addBlock` and `restoreVerifiedBlock` take the `tokenId` of a mint block as it comes.
-/
import NeuronWeb.Ledger.ProofClaims
import NeuronWeb.Ledger.Sample
import NeuronWeb.Transparent

set_option autoImplicit false

namespace NeuronWeb.EngineLedger

variable {F : Type}

variable {P : Primitives F}

theorem nftTokenId_inj (hP : CollisionFree P) {minter minter' : Hex}
    {index index' : Int} {contentRef contentRef' : String} (hm : ':' ∉ minter.toList)
    (hm' : ':' ∉ minter'.toList)
    (h : nftTokenId P minter index contentRef = nftTokenId P minter' index' contentRef') :
    minter = minter' ∧ index = index' ∧ contentRef = contentRef' := by
  have htext := utf8ToBytes_injective (hP.hashHex_injective h)
  have hchars := congrArg String.toList htext
  have hcolon : ":".toList = [':'] := rfl
  simp only [String.toList_append, List.append_assoc, hcolon, List.cons_append,
    List.nil_append] at hchars
  obtain ⟨hminter, hrest⟩ := Text.field_inj hm hm' (List.append_cancel_left hchars)
  obtain ⟨hindex, hcontent⟩ := Text.field_inj
    (Text.not_mem_toString_int (by decide) (by decide) index)
    (Text.not_mem_toString_int (by decide) (by decide) index') hrest
  exact ⟨String.toList_injective hminter,
    Text.toString_int_injective (String.toList_injective hindex),
    String.toList_injective hcontent⟩

/-! ## Honest mints and accepted mints -/

/-- A signature verifies under a hex key only. -/
def HexKeys (P : Primitives F) : Prop :=
  ∀ sig message pub, P.verify sig message pub = true → ':' ∉ pub.toList

/-- `mint` is the block that `account` mints the content with at that height. -/
structure HonestMint (P : Primitives F) (mint : Block F) (account : Hex) (index : Int)
    (contentRef : String) : Prop where
  verified : verifyBlock P mint = true
  type : mint.type = .nftMint
  accountId : mint.accountId = account
  height : mint.index = index
  content : mint.contentRef = some contentRef
  tokenId : mint.tokenId = some (nftTokenId P account index contentRef)

/-- One of the four paths accepts `mint` as the mint of the token. -/
inductive AcceptsMint [JsNumber F] (P : Primitives F) (cfg : LedgerConfig) (L : EngineLedger F)
    (mint : Block F) (tokenId : Hex) : Prop
  | proved (proof : MintProof F) (policy : QuorumPolicy) (carries : proof.mintBlock = mint)
      (verified : verifyMintProof P proof tokenId policy = some none)
  /-- A token that is already known is answered `ok` whatever the proof is. -/
  | registered (proof : MintProof F) (carries : proof.mintBlock = mint)
      (unknown : L.nftInfo.has tokenId = false)
      (ok : (registerVerifiedMint P cfg L proof tokenId).2 = .ok)
  | added (now : Int) (type : mint.type = .nftMint) (carries : mint.tokenId = some tokenId)
      (success : (addBlock P L mint now).2 = .success)
  | restored (type : mint.type = .nftMint) (carries : mint.tokenId = some tokenId)
      (restores : (restoreVerifiedBlock P L mint).2 = true)

/-- The token of the block is the one of its own account, height and content. -/
def MintsOwnToken (P : Primitives F) (mint : BlockContent F) : Prop :=
  ∃ contentRef, mint.contentRef = some contentRef ∧
    mint.tokenId = some (nftTokenId P mint.accountId mint.index contentRef)

/-! ## What acceptance checks -/

variable {policy : QuorumPolicy}

theorem verified_of_verifyChainInclusion {openBlock headBlock block : Block F}
    {openProof blockProof : List Hex}
    (h : verifyChainInclusion P openBlock headBlock openProof block blockProof policy =
      some none) : verifyBlock P block = true := by
  unfold verifyChainInclusion at h
  split at h
  · cases h
  · cases h
  · split at h
    · cases h
    · split at h
      · cases h
      · rename_i hverified
        simpa using hverified

theorem verifyMintProof_eq_ok {proof : MintProof F} {tokenId : Hex}
    (h : verifyMintProof P proof tokenId policy = some none) :
    proof.mintBlock.tokenId = some tokenId ∧ verifyBlock P proof.mintBlock = true := by
  unfold verifyMintProof at h
  simp only at h
  split at h
  · cases h
  · split at h
    · cases h
    · rename_i htoken
      split at h
      · cases h
      · exact ⟨by simpa using htoken, verified_of_verifyChainInclusion h⟩

theorem verifyPacket_eq_ok {packet : CounterpartyPacket F} {recipient : Hex}
    (h : verifyPacket P packet recipient policy = some none) :
    verifyBlock P packet.sendBlock = true := by
  unfold verifyPacket at h
  simp only at h
  split at h
  · cases h
  · split at h
    · cases h
    · exact verified_of_verifyChainInclusion h

theorem verifyMintProof_of_registered {cfg : LedgerConfig}
    {L : EngineLedger F} {proof : MintProof F} {tokenId : Hex}
    (unknown : L.nftInfo.has tokenId = false)
    (h : (registerVerifiedMint P cfg L proof tokenId).2 = .ok) :
    verifyMintProof P proof tokenId cfg.identityPolicy = some none := by
  unfold registerVerifiedMint at h
  simp only [unknown, Bool.false_eq_true, if_false] at h
  split at h
  · cases h
  · split at h
    · cases h
    · split at h
      · cases h
      · cases h
      · assumption

theorem HexKeys.keyed (hkeys : HexKeys P) {block : Block F}
    (h : verifyBlock P block = true) : ':' ∉ block.accountId.toList :=
  hkeys _ _ _ ((verifyBlock_iff P block).mp h).2

variable [JsNumber F] {P : Primitives F} {cfg : LedgerConfig} {L : EngineLedger F}
  {mint : Block F} {tokenId : Hex}

theorem verified_of_success {block : Block F} {now : Int}
    (h : (addBlock P L block now).2 = .success) : verifyBlock P block = true := by
  unfold addBlock at h
  split at h
  · cases h
  · rename_i hhash
    split at h
    · cases h
    · rename_i hsignature
      exact (verifyBlock_iff P block).mpr ⟨by simpa using hhash, by simpa using hsignature⟩

theorem verified_of_restored {block : Block F} (h : (restoreVerifiedBlock P L block).2 = true) :
    verifyBlock P block = true := by
  unfold restoreVerifiedBlock at h
  split at h
  · cases h
  · rename_i hverified
    simpa using hverified

theorem AcceptsMint.carries_verified (h : AcceptsMint P cfg L mint tokenId) :
    mint.tokenId = some tokenId ∧ verifyBlock P mint = true := by
  cases h with
  | proved proof policy carries verified => exact carries ▸ verifyMintProof_eq_ok verified
  | registered proof carries unknown ok =>
    exact carries ▸ verifyMintProof_eq_ok (verifyMintProof_of_registered unknown ok)
  | added now type carries success => exact ⟨carries, verified_of_success success⟩
  | restored type carries restores => exact ⟨carries, verified_of_restored restores⟩

/-- A mint that one of the four paths accepts for an honestly minted token is by its
minter, at its height and with its content, if and only if the accepted block names the
token of its own account, height and content. -/
theorem accepted_mint_genuine_iff (P : Primitives F) (cfg : LedgerConfig) (hP : CollisionFree P)
    (hkeys : HexKeys P) (L : EngineLedger F) (honest : Block F) (account : Hex) (index : Int)
    (contentRef : String) (hhonest : HonestMint P honest account index contentRef)
    (mint : Block F)
    (haccepts : AcceptsMint P cfg L mint (nftTokenId P account index contentRef)) :
    (mint.accountId = account ∧ mint.index = index ∧ mint.contentRef = some contentRef) ↔
      MintsOwnToken P mint.toBlockContent := by
  obtain ⟨htoken, hverified⟩ := haccepts.carries_verified
  have hminter := hkeys.keyed hverified
  have haccount := hkeys.keyed hhonest.verified
  rw [hhonest.accountId] at haccount
  constructor
  · rintro ⟨rfl, rfl, hcontent⟩
    exact ⟨contentRef, hcontent, htoken⟩
  · rintro ⟨contentRef', hcontent, hown⟩
    rw [hown, Option.some.injEq] at htoken
    obtain ⟨hminter, hindex, hsame⟩ := nftTokenId_inj hP hminter haccount htoken
    exact ⟨hminter, hindex, hsame ▸ hcontent⟩

end NeuronWeb.EngineLedger

/-! ## A token minted twice -/

namespace NeuronWeb.Sample

/-- Collision-free sample primitives under which a key is free of colons. -/
def hexKeyed : Primitives Rat :=
  { transparent with
    verify := fun sig message pub => sig == signature message pub && !pub.toList.contains ':' }

theorem collisionFree_hexKeyed : CollisionFree hexKeyed :=
  ⟨collisionFree_transparent.sha256_injective, collisionFree_transparent.sha256_ne_nil,
    collisionFree_transparent.encode_header⟩

theorem hexKeys_hexKeyed : EngineLedger.HexKeys hexKeyed := by
  intro sig message pub h
  have hkey : (!pub.toList.contains ':') = true := (Bool.and_eq_true_iff.mp h).2
  simpa using hkey

/-- A ledger on which `pub` has just opened an account. -/
def openedBy (pub : Hex) : EngineLedger Rat :=
  (EngineLedger.openAccount hexKeyed config (EngineLedger.new hexKeyed) pub pub "human" [] false
    0).1

end NeuronWeb.Sample

namespace NeuronWeb.EngineLedger

open Sample (hexKeyed openedBy)

/-- The block that `pub` signs on its genesis block to mint `contentRef` under a token id. -/
def mintUnder (pub tokenId : Hex) (contentRef : String) : Option (Block Rat) :=
  ((openedBy pub).heldHead pub).bind fun h =>
    (createBlock hexKeyed { nextContent h.2 pub .nftMint 1 MINT with
      tokenId := some tokenId, contentRef := some contentRef, nftMeta := some [] } pub h.1.acc).2

/-- The token that Alice mints in her first block. -/
def song : Hex := nftTokenId hexKeyed "alice" 1 "song"

theorem exists_honest_song : ∃ mint : Block Rat, HonestMint hexKeyed mint "alice" 1 "song" ∧
    AcceptsMint hexKeyed Sample.config (openedBy "bob") mint song := by
  have hmint : (mintUnder "alice" song "song").any (fun mint =>
      verifyBlock hexKeyed mint && mint.type = .nftMint && mint.accountId = "alice" &&
        mint.index = 1 && mint.contentRef = some "song" && mint.tokenId = some song &&
        (restoreVerifiedBlock hexKeyed (openedBy "bob") mint).2) = true := by decide +kernel
  rw [Option.any_eq_true] at hmint
  obtain ⟨mint, -, hmint⟩ := hmint
  simp only [Bool.and_eq_true, decide_eq_true_eq] at hmint
  obtain ⟨⟨⟨⟨⟨⟨hverified, htype⟩, haccount⟩, hindex⟩, hcontent⟩, htoken⟩, hrestored⟩ := hmint
  exact ⟨mint, ⟨hverified, htype, haccount, hindex, hcontent, htoken⟩,
    .restored htype htoken hrestored⟩

/-- Alice's own mint, restored by Bob's node, names its own token. -/
theorem accepted_mint_genuine_iff_song :
    ∃ mint : Block Rat, mint.accountId = "alice" ∧ MintsOwnToken hexKeyed mint.toBlockContent := by
  obtain ⟨mint, honest, accepts⟩ := exists_honest_song
  exact ⟨mint, honest.accountId, (accepted_mint_genuine_iff hexKeyed Sample.config
    Sample.collisionFree_hexKeyed Sample.hexKeys_hexKeyed (openedBy "bob") mint "alice" 1 "song"
      honest mint accepts).mp ⟨honest.accountId, honest.height, honest.content⟩⟩

/-- Mallory mints noise under the id of Alice's song, and a node that has not seen the song
accepts it. -/
theorem token_repointed : ¬ ∀ (L : EngineLedger Rat) (honest mint : Block Rat) (account : Hex)
    (index : Int) (contentRef : String), HonestMint hexKeyed honest account index contentRef →
    AcceptsMint hexKeyed Sample.config L mint (nftTokenId hexKeyed account index contentRef) →
    mint.accountId = account ∧ mint.index = index ∧ mint.contentRef = some contentRef := by
  intro hall
  obtain ⟨honest, hhonest, -⟩ := exists_honest_song
  have hforged : (mintUnder "mallory" song "noise").any (fun mint =>
      mint.type = .nftMint && mint.accountId = "mallory" && mint.tokenId = some song &&
        (addBlock hexKeyed (openedBy "mallory") mint 2).2 = .success) = true := by decide +kernel
  rw [Option.any_eq_true] at hforged
  obtain ⟨mint, -, hforged⟩ := hforged
  simp only [Bool.and_eq_true, decide_eq_true_eq] at hforged
  obtain ⟨⟨⟨htype, haccount⟩, htoken⟩, hadded⟩ := hforged
  obtain ⟨hminter, -⟩ := hall (openedBy "mallory") honest mint "alice" 1 "song" hhonest
    (.added 2 htype htoken hadded)
  rw [haccount] at hminter
  exact absurd hminter (by decide)

end NeuronWeb.EngineLedger
