/-
  Ledger/GenesisQuorum: what stands behind the genesis block of a held chain.

  `openAccount` asks for the attestation quorum; `addBlock` deliberately does not re-check
  it, so that existing accounts replay under any policy.  A held chain therefore starts
  with a quorum-backed block or with one that a peer has delivered.
-/
import NeuronWeb.Ledger.Outcome
import NeuronWeb.Ledger.Sample

set_option autoImplicit false

namespace NeuronWeb.EngineLedger

variable {F : Type}

/-- The block carries a commitment and attestations that meet the policy of the ledger. -/
def HasQuorum (P : Primitives F) (cfg : LedgerConfig) (genesis : BlockContent F) : Prop :=
  ∃ commitment attestations, genesis.identityCommitment = some commitment ∧
    genesis.attestations = some attestations ∧
    (checkQuorum P attestations commitment cfg.identityPolicy).ok = true

/-- The first block of the chain of `x` mints exactly the genesis amount to `x`. -/
structure MintsGenesis (genesis : BlockContent F) (x : Hex) : Prop where
  account : genesis.accountId = x
  index : genesis.index = 0
  type : genesis.type = .open
  previousHash : genesis.previousHash = GENESIS_PREV
  balance : genesis.balance = MINT

/-- `genesis` was delivered by one of the calls, authentic. -/
def Delivered (P : Primitives F) (calls : List (Call F)) (genesis : Block F) : Prop :=
  verifyBlock P genesis = true ∧ ∃ now, Call.addBlock genesis now ∈ calls

/-- Every chain starts with a genesis mint that has a quorum or was delivered by a call. -/
def GenesisBacked (P : Primitives F) (cfg : LedgerConfig) (calls : List (Call F))
    (L : EngineLedger F) : Prop :=
  ∀ x genesis, (L.getAccountChain x).head? = some genesis →
    MintsGenesis genesis.toBlockContent x ∧
      (Delivered P calls genesis ∨ HasQuorum P cfg genesis.toBlockContent)

/-- Every chain starts with a genesis mint that has a quorum. -/
def QuorumBacked (P : Primitives F) (cfg : LedgerConfig) (L : EngineLedger F) : Prop :=
  ∀ x genesis, (L.getAccountChain x).head? = some genesis →
    HasQuorum P cfg genesis.toBlockContent

/-- The call opens an account or delivers a block. -/
def Call.opensOrDelivers : Call F → Bool
  | .openAccount .. => true
  | .addBlock .. => true
  | _ => false

theorem head?_of_extends {chain chain' : List (Block F)} {genesis : Block F}
    (h : chain' <+: chain) (hhead : chain'.head? = some genesis) :
    chain.head? = some genesis := by
  obtain ⟨rest, rfl⟩ := h
  cases chain' with
  | nil => cases hhead
  | cons first rest' => exact hhead

theorem openAccount_opens (P : Primitives F) (cfg : LedgerConfig) (L : EngineLedger F)
    (pub priv nullifier : Hex) (attestations : List TypedAttestation) (bond : Bool) (now : Int) :
    (∀ x, (openAccount P cfg L pub priv nullifier attestations bond now).1.getAccountChain x =
        L.getAccountChain x) ∨
      ∃ block : Block F, MintsGenesis block.toBlockContent pub ∧
        HasQuorum P cfg block.toBlockContent ∧
        ∀ x, (openAccount P cfg L pub priv nullifier attestations bond now).1.getAccountChain x =
          if pub = x then [block] else L.getAccountChain x := by
  have outcome := openAccount_outcome P cfg L pub priv nullifier attestations bond now
  generalize openAccount P cfg L pub priv nullifier attestations bond now = result at outcome
  cases outcome with
  | refused error => exact .inl fun _ => rfl
  | thrown identity => exact .inl fun _ => rfl
  | opened identity shard acc block admitted created =>
    obtain ⟨hcontent, -⟩ := createBlock_eq_some created
    have hmints : MintsGenesis block.toBlockContent pub := by
      rw [hcontent]
      exact ⟨rfl, rfl, rfl, rfl, rfl⟩
    have hquorum : HasQuorum P cfg block.toBlockContent := by
      rw [hcontent]
      exact ⟨_, _, rfl, rfl, admitted.quorum⟩
    refine .inr ⟨block, hmints, hquorum, fun x => ?_⟩
    let opened := ({ L with identity }.hold pub ⟨[block], acc⟩).indexBlock block
    have hopened : opened.getAccountChain x =
        if pub = x then [block] else L.getAccountChain x :=
      getAccountChain_hold { L with identity } pub ⟨[block], acc⟩ x
    cases bond with
    | false => exact hopened
    | true =>
      obtain ⟨registry, hbond, -⟩ := bondStake_eq opened pub (some MINT)
      have hheld : (opened.bondStake pub (some MINT)).1.held = opened.held := by rw [hbond]
      exact (getAccountChain_congr hheld x).trans hopened

variable {P : Primitives F} {cfg : LedgerConfig} {calls : List (Call F)} {L : EngineLedger F}

theorem GenesisBacked.append {b : Block F} {pub x : Hex} {genesis : Block F}
    (hL : GenesisBacked P cfg calls L) (hheld : L.getAccountChain pub ≠ [])
    (hhead : (if pub = x then L.getAccountChain x ++ [b] else L.getAccountChain x).head? =
      some genesis) :
    MintsGenesis genesis.toBlockContent x ∧
      (Delivered P calls genesis ∨ HasQuorum P cfg genesis.toBlockContent) := by
  split at hhead
  · rename_i hx
    rw [List.head?_append_of_ne_nil _ (hx ▸ hheld)] at hhead
    exact hL x genesis hhead
  · exact hL x genesis hhead

theorem getAccountChain_ne_nil {pub : Hex} {h : Held F} {head : Block F}
    (stored : L.held.get? pub = some h) (last : h.chain.getLast? = some head) :
    L.getAccountChain pub ≠ [] := by
  rw [getAccountChain_of_held stored]
  intro hnil
  rw [hnil] at last
  cases last

variable [JsNumber F] {c : Call F}

/-- One call of the run keeps every chain backed. -/
theorem genesisBacked_step (hL : GenesisBacked P cfg calls L) (hc : c ∈ calls) :
    GenesisBacked P cfg calls (step P cfg L c) := by
  intro x genesis hhead
  cases step_outcome P cfg L c with
  | quiet h => exact hL x genesis (head?_of_extends (h.chain x) hhead)
  | froze h =>
    rw [h.chain x] at hhead
    exact hL x genesis hhead
  | reset h =>
    rw [h] at hhead
    cases hhead
  | appended b origin h =>
    cases origin with
    | drafted author stored last draft =>
      obtain ⟨haccount, -⟩ := draft.header
      have hheld := getAccountChain_ne_nil stored last
      rw [h.chain x] at hhead
      exact hL.append (haccount ▸ hheld) hhead
    | linked authentic links checked root =>
      have hheld := getAccountChain_ne_nil links.stored links.last
      rw [h.chain x] at hhead
      exact hL.append hheld hhead
    | genesis authentic opens =>
      rw [h.chain x] at hhead
      split at hhead
      · rename_i hx
        have hnone : L.getAccountChain x = [] := by simp [getAccountChain, ← hx, opens.fresh]
        rw [hnone] at hhead
        cases hhead
        have hverify := (verifyBlock_iff P genesis).mpr ⟨authentic.hash, authentic.signature⟩
        exact ⟨⟨hx, opens.index, opens.type, opens.previousHash, opens.balance⟩,
          .inl ⟨hverify, _, hc⟩⟩
      · exact hL x genesis hhead
    | @opened pub priv nullifier attestations bond now b identity admitted account type =>
      rcases openAccount_opens P cfg L pub priv nullifier attestations bond now with
        hsame | ⟨block, hmints, hquorum, hopens⟩
      · rw [step, hsame] at hhead
        exact hL x genesis hhead
      · rw [step, hopens] at hhead
        split at hhead
        · rename_i hx
          cases hhead
          exact ⟨hx ▸ hmints, .inr hquorum⟩
        · exact hL x genesis hhead

/-- In every state of every run each held chain starts with a block that mints exactly the
genesis amount, and that either carries the attestation quorum of the ledger's policy or
was delivered, authentic, by an `addBlock` of the run. -/
theorem genesis_backed (P : Primitives F) (cfg : LedgerConfig) (calls : List (Call F)) :
    Run.Always (step P cfg) (GenesisBacked P cfg calls) (new P) calls :=
  Run.always_of_invariant (C := fun _ c => c ∈ calls)
    (fun _ _ hL hc => genesisBacked_step hL hc) (fun _ hL => hL)
    (fun _ _ hhead => by cases hhead)
    (Run.stepsMeet_of_mem (fun _ hc _ => hc) (new P))

/-- A peer's genesis block that carries no attestation at all. -/
def unattestedGenesis : Block Rat :=
  let L := new Sample.primitives
  Sample.continuing L (Sample.header L "alice")

/-- A ledger whose policy asks for a personhood attestation takes in an account without. -/
theorem unattested_genesis_accepted :
    ¬ ∀ calls : List (Call Rat), (∀ c ∈ calls, c.opensOrDelivers = true) →
      Run.Always (step Sample.primitives {}) (QuorumBacked Sample.primitives {})
        (new Sample.primitives) calls := by
  intro hall
  have hbacked := (hall [.addBlock unattestedGenesis 0] (by simp [Call.opensOrDelivers])).at_final
  obtain ⟨commitment, attestations, hcommitment, -⟩ :=
    hbacked "alice" unattestedGenesis (by decide +kernel)
  have hnone : unattestedGenesis.identityCommitment = none := by decide +kernel
  rw [hnone] at hcommitment
  cases hcommitment

end NeuronWeb.EngineLedger
