/-
  Node/DeltaSync: catching up on one account (`engine/node/delta-sync.ts`).

  The destination says how far its chain goes, the source sends what it has beyond, and the
  destination applies it block by block. What makes this converge is that a chain in a store is
  linked by hashes: where two chains have the same hash at one height they have the same hashes
  below (`hashes_prefix_of_hash`), so either the destination's chain is the beginning of the
  source's, or its head is no block of the source's.
-/
import NeuronWeb.Node.AccountStore
import NeuronWeb.Transparent
import Mathlib.Data.List.Induction

set_option autoImplicit false

namespace NeuronWeb

variable {F : Type}

/-! ## Requests and deltas -/

section Chains

variable (P : Primitives F)

/-- What the accumulator holds of a block whose hash is that of its content. -/
def leafOf (b : Block F) : Bytes :=
  P.sha256 (P.encodeJson (canonicalContent b.toBlockContent).sortValue)

/-- `b` continues a chain: it passes every check of `apply`, the signature when `verified`. -/
structure ContinuesChain (verified : Bool) (id : Hex) (blocks : List (Block F)) (b : Block F) :
    Prop where
  account : b.accountId = id
  index : b.index = blocks.length
  content : computeContentHash P b.toBlockContent = b.hash
  signed : verified = true → verifyBlockSignature P b = true
  root : AccountAccumulator.rootHex P ((blocks ++ [b]).map (leafOf P)) = b.accumulatorRoot
  first : blocks = [] → b.type = .open ∧ b.previousHash = GENESIS_PREV
  linked : ∀ head, blocks.getLast? = some head → b.previousHash = head.hash

inductive ValidChain (verified : Bool) (id : Hex) : List (Block F) → Prop
  | nil : ValidChain verified id []
  | snoc {blocks : List (Block F)} {b : Block F} (hchain : ValidChain verified id blocks)
      (hnext : ContinuesChain P verified id blocks b) : ValidChain verified id (blocks ++ [b])

/-- What a store holds of an account with these blocks. -/
def heldOf (blocks : List (Block F)) : HeldAccount F := ⟨blocks, blocks.map (leafOf P)⟩

end Chains

variable {P : Primitives F} {verified : Bool} {id : Hex}

theorem ValidChain.continues {chain : List (Block F)} (h : ValidChain P verified id chain)
    {before after : List (Block F)} {b : Block F} (heq : chain = before ++ b :: after) :
    ContinuesChain P verified id before b := by
  induction h generalizing after with
  | nil => exact absurd heq.symm (List.append_ne_nil_of_right_ne_nil _ (List.cons_ne_nil _ _))
  | @snoc blocks last hchain hnext ih =>
    rcases List.eq_nil_or_concat after with rfl | ⟨after', z, rfl⟩
    · obtain ⟨rfl, hb⟩ := List.append_inj' heq rfl
      rw [← List.singleton_inj.mp hb]
      exact hnext
    · have hsplit : blocks ++ [last] = (before ++ b :: after') ++ [z] := by
        rw [heq, List.append_assoc, List.cons_append, List.concat_eq_append]
      exact ih (List.append_inj' hsplit rfl).1

theorem ValidChain.last {before : List (Block F)} {b : Block F}
    (h : ValidChain P verified id (before ++ [b])) : ContinuesChain P verified id before b :=
  h.continues rfl

namespace AccountStore

/-- Every account of the store has a valid chain and its accumulator. -/
def Sound (P : Primitives F) (S : AccountStore F) : Prop :=
  ∀ id held, S.accounts.get? id = some held →
    held = heldOf P held.blocks ∧ ValidChain P S.verifySignatures id held.blocks

variable {S : AccountStore F} {block : Block F}

/-- What one call of `apply` leaves of a sound store. -/
inductive Effect (P : Primitives F) (S : AccountStore F) (block : Block F) :
    AccountStore F → Prop
  | unchanged : Effect P S block S
  | registered : Effect P S block (S.put block.accountId ⟨[], []⟩)
  | appended (blocks : List (Block F)) (hchain : ValidChain P S.verifySignatures block.accountId
        blocks) (hnext : ContinuesChain P S.verifySignatures block.accountId blocks block) :
      Effect P S block (S.put block.accountId (heldOf P (blocks ++ [block])))

/-- The account has these blocks and their accumulator, and is not registered without blocks. -/
def Holds (P : Primitives F) (S : AccountStore F) (id : Hex) (blocks : List (Block F)) : Prop :=
  S.accounts.get? id = if blocks.isEmpty then none else some (heldOf P blocks)

end AccountStore

/-! ## Chains with the same hashes -/

/-- The hashes of a chain's blocks: what tells chains apart. -/
def hashes (chain : List (Block F)) : List Hex := chain.map fun b => b.hash

theorem hashes_append (l l' : List (Block F)) : hashes (l ++ l') = hashes l ++ hashes l' :=
  List.map_append

theorem ValidChain.leaves {chain : List (Block F)} (h : ValidChain P verified id chain) :
    (chain.map (leafOf P)).map bytesToHex = hashes chain := by
  induction h with
  | nil => rfl
  | @snoc blocks b hchain hnext ih =>
    have hleaf : bytesToHex (leafOf P b) = b.hash := hnext.content
    rw [List.map_append, List.map_append, ih, hashes_append, List.map_singleton,
      List.map_singleton, hleaf]
    rfl

theorem ValidChain.signed {chain : List (Block F)} (h : ValidChain P verified id chain)
    {b : Block F} (hb : b ∈ chain) (hverified : verified = true) :
    verifyBlockSignature P b = true := by
  obtain ⟨before, after, heq⟩ := List.append_of_mem hb
  exact (h.continues heq).signed hverified

namespace AccountStore

variable {D S : AccountStore F}

theorem headProof_eq (hS : S.Sound P) (id : Hex) :
    S.headProof id P =
      match (S.chain id).head?, (S.chain id).getLast? with
      | some openBlock, some headBlock =>
        (AccountAccumulator.proofHex P ((S.chain id).map (leafOf P)) 0).map fun proof =>
          some ⟨openBlock, headBlock, proof⟩
      | _, _ => some none := by
  unfold headProof chain
  cases hheld : S.accounts.get? id with
  | none => rfl
  | some held =>
    have haccumulator : held.accumulator = held.blocks.map (leafOf P) :=
      congrArg HeldAccount.accumulator (hS id held hheld).1
    dsimp only
    rw [haccumulator]
    rfl

end AccountStore

end NeuronWeb
