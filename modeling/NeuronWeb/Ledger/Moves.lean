/-
  Ledger/Moves: what one call does to what the ledger holds of one account.

  `Outcome` looks at all chains at once; here one account is looked at, with its accumulator.
  Two slips of the code are cases of their own: a refused genesis block leaves an empty chain,
  and a key that cannot sign leaves a leaf that no block has.
-/
import NeuronWeb.Ledger.Outcome

set_option autoImplicit false

namespace NeuronWeb.EngineLedger

variable {F : Type}

/-- The account a call writes for, and the key it is given. -/
def Call.signer : Call F → Option (Hex × Hex)
  | .openAccount pub priv _ _ _ _ => some (pub, priv)
  | c => c.author.map fun a => (a.1, a.2.1)

theorem Call.signer_of_author {c : Call F} {pub priv : Hex} {now : Int}
    (h : c.author = some (pub, priv, now)) : c.signer = some (pub, priv) := by
  cases c <;> simp_all [Call.signer, Call.author]

/-- The block `b` of the account `x` takes the chain `h` on, and its accumulator to `acc`. -/
structure Extends (P : Primitives F) (c : Call F) (x : Hex) (h : Held F) (b : Block F)
    (acc : AccountAccumulator) : Prop where
  account : b.accountId = x
  hash : computeContentHash P b.toBlockContent = b.hash
  append : h.acc.append b.hash = some acc
  root : b.accumulatorRoot = acc.rootHex P
  opens : h.chain.getLast? = none → b.index = 0 ∧ b.type = .open ∧ b.previousHash = GENESIS_PREV
  links : ∀ head, h.chain.getLast? = some head →
    b.index = head.index + 1 ∧ b.previousHash = head.hash
  minted : b.type = .nftMint → truthy b.contentRef = true
  /-- It was signed elsewhere and verified, or is signed here with the key of the call. -/
  signed : verifyBlockSignature P b = true ∨ ∃ priv, c.signer = some (x, priv) ∧
    P.sign (blockSigningMessage b.hash b.accumulatorRoot) priv = some b.signature

/-- What a call does to what is held of the account `x`. -/
inductive Moves (P : Primitives F) (L : EngineLedger F) (c : Call F) (x : Hex)
    (L' : EngineLedger F) : Prop
  | kept (h : L'.held.get? x = L.held.get? x)
  /-- By a purge or a reset. -/
  | dropped (h : L'.held.get? x = none)
  | emptied (fresh : L.held.get? x = none) (h : L'.held.get? x = some ⟨[], []⟩)
  | spoiled {stored : Held F} {priv : Hex} {message : String} (acc : AccountAccumulator)
      (before : L.held.get? x = some stored) (h : L'.held.get? x = some ⟨stored.chain, acc⟩)
      (signer : c.signer = some (x, priv)) (thrown : P.sign message priv = none)
  | extended {stored : Held F} {b : Block F} {acc : AccountAccumulator}
      (before : L.held.get? x = some stored ∨ (L.held.get? x = none ∧ stored = ⟨[], []⟩))
      (h : L'.held.get? x = some ⟨stored.chain ++ [b], acc⟩)
      (ext : Extends P c x stored b acc)

theorem height_concat {chain : List (Block F)} {b : Block F}
    (height : ∀ (i : Nat) (b' : Block F), chain[i]? = some b' → b'.index = i)
    (opens : chain.getLast? = none → b.index = 0)
    (links : ∀ head, chain.getLast? = some head → b.index = head.index + 1) :
    ∀ (i : Nat) (b' : Block F), (chain ++ [b])[i]? = some b' → b'.index = i := by
  have hindex : b.index = chain.length := by
    cases hlast : chain.getLast? with
    | none =>
      rw [opens hlast, List.getLast?_eq_none_iff.mp hlast]
      rfl
    | some head =>
      have hpos : 0 < chain.length := List.length_pos_of_mem (List.mem_of_getLast? hlast)
      have hhead : head.index = (chain.length - 1 : Nat) := by
        rw [List.getLast?_eq_getElem?] at hlast
        exact height _ head hlast
      rw [links head hlast, hhead]
      omega
  intro i b' hb'
  rw [List.getElem?_append] at hb'
  split at hb'
  case isTrue => exact height i b' hb'
  case isFalse hi =>
    rw [List.getElem?_singleton] at hb'
    split at hb'
    case isTrue hzero =>
      rw [← Option.some.inj hb', hindex]
      omega
    case isFalse => cases hb'

/-! ## Every call -/

theorem createBlock_eq_none {P : Primitives F} {content : BlockContent F} {priv : Hex}
    {acc acc' : AccountAccumulator} (h : createBlock P content priv acc = (acc', none)) :
    ∃ message, P.sign message priv = none := by
  simp only [createBlock, append_computeContentHash] at h
  split at h
  case h_1 hsign => exact ⟨_, hsign⟩
  case h_2 => cases h

theorem get?_hold (L : EngineLedger F) (pub : Hex) (h : Held F) (x : Hex) :
    (L.hold pub h).held.get? x = if pub = x then some h else L.held.get? x :=
  JsMap.get?_set L.held pub h x

variable [JsNumber F] {P : Primitives F} {cfg : LedgerConfig} {L : EngineLedger F}

theorem truthy_of_checkBlock {head b : Block F} (h : checkBlock P L head b = none)
    (htype : b.type = .nftMint) : truthy b.contentRef = true := by
  simp only [checkBlock, htype, checkNftMint] at h
  split at h
  · cases h
  · split at h
    · cases h
    · simp_all

theorem Draft.contentRef_truthy {pub priv : Hex} {head : Block F} {now : Int} {c : Call F}
    {content : BlockContent F} {effect : Effect F}
    (d : Draft P L pub priv head now c content effect)
    (htype : content.type = .nftMint) : truthy content.contentRef = true := by
  cases d
  case nftMint contentRef md hfrozen hne => exact (truthy_iff _).mpr ⟨contentRef, rfl, hne⟩
  all_goals cases htype

theorem create_moves {c : Call F} {pub priv : Hex} {now : Int}
    {r : EngineLedger F × CreateResult F} (hauthor : c.author = some (pub, priv, now))
    (outcome : CreateOutcome P L c pub priv now r) (x : Hex) : Moves P L c x r.1 := by
  cases outcome with
  | refused error => exact .kept rfl
  | thrown => exact .kept rfl
  | drafted h head content effect stored last draft =>
    obtain ⟨haccount, hindex, hprevious, _⟩ := draft.header
    unfold appendOwn
    cases hcreate : createBlock P content priv h.acc with
    | mk acc result =>
      by_cases hx : pub = x
      · subst hx
        cases result with
        | none =>
          obtain ⟨message, hthrown⟩ := createBlock_eq_none hcreate
          refine .spoiled acc stored ?_ (Call.signer_of_author hauthor) hthrown
          simp only [get?_hold, haccount, if_true]
        | some block =>
          obtain ⟨rfl, hhash, happend, hroot, hsign⟩ := createBlock_eq_some hcreate
          refine .extended (b := block) (.inl stored) (?_ : _ = some (Held.mk _ acc)) ?_
          · simp only [(draft.sameChains _ block).held]
            rw [haccount]
            exact (get?_hold L pub _ pub).trans (if_pos rfl)
          · exact
              { account := haccount
                hash := hhash.symm
                append := happend
                root := hroot
                opens := fun hnone => by rw [last] at hnone; cases hnone
                links := fun head' hhead' => by
                  rw [last] at hhead'
                  cases hhead'
                  exact ⟨hindex, hprevious⟩
                minted := draft.contentRef_truthy
                signed := .inr ⟨priv, Call.signer_of_author hauthor, hsign⟩ }
      · cases result with
        | none =>
          refine .kept ?_
          simp only [get?_hold, haccount, if_neg hx]
        | some block =>
          refine .kept ?_
          simp only [(draft.sameChains _ block).held]
          rw [haccount]
          exact (get?_hold L pub _ x).trans (if_neg hx)

theorem get?_held_appendForeign (h : Held F) (acc : AccountAccumulator) (b : Block F) (now : Int)
    (x : Hex) : (appendForeign P L h acc b now).held.get? x =
      if b.accountId = x then some ⟨h.chain ++ [b], acc⟩ else L.held.get? x := by
  rw [← get?_hold]
  simp [appendForeign, indexBlock]

theorem addBlock_moves (block : Block F) (now : Int) (x : Hex) :
    Moves P L (.addBlock block now) x (addBlock P L block now).1 := by
  have outcome := addBlock_outcome P L block now
  generalize addBlock P L block now = result at outcome
  cases outcome with
  | unchanged r => exact .kept rfl
  | forked h existing error authentic forks =>
    refine .kept ?_
    simp only [flagFork, flagEquivocation, indexBlock]
    split
    · unfold freezeEquivocator
      split <;> rfl
    · rfl
  | emptied r authentic opens refused =>
    by_cases hx : block.accountId = x
    · subst hx
      exact .emptied opens.fresh ((get?_hold L _ _ _).trans (if_pos rfl))
    · exact .kept ((get?_hold L _ _ x).trans (if_neg hx))
  | opened acc authentic opens root =>
    by_cases hx : block.accountId = x
    · subst hx
      refine .extended (b := block) (.inr ⟨opens.fresh, rfl⟩)
        ((get?_held_appendForeign _ acc block now _).trans (if_pos rfl)) ?_
      exact
        { account := rfl
          hash := authentic.hash
          append := root.append
          root := root.root.symm
          opens := fun _ => ⟨opens.index, opens.type, opens.previousHash⟩
          links := fun head hhead => by cases hhead
          minted := fun htype => by rw [opens.type] at htype; cases htype
          signed := .inl authentic.signature }
    · refine .kept ((get?_held_appendForeign _ acc block now x).trans ((if_neg hx).trans ?_))
      exact (get?_hold L _ _ x).trans (if_neg hx)
  | extended h head acc authentic links checked root =>
    by_cases hx : block.accountId = x
    · subst hx
      refine .extended (b := block) (.inl links.stored)
        ((get?_held_appendForeign h acc block now _).trans (if_pos rfl)) ?_
      exact
        { account := rfl
          hash := authentic.hash
          append := root.append
          root := root.root.symm
          opens := fun hnone => by rw [links.last] at hnone; cases hnone
          links := fun head' hhead' => by
            rw [links.last] at hhead'
            cases hhead'
            exact ⟨links.index, links.previousHash⟩
          minted := truthy_of_checkBlock checked
          signed := .inl authentic.signature }
    · exact .kept ((get?_held_appendForeign h acc block now x).trans (if_neg hx))

omit [JsNumber F] in
theorem openAccount_moves (pub priv nullifier : Hex) (attestations : List TypedAttestation)
    (bond : Bool) (now : Int) (x : Hex) :
    Moves P L (.openAccount pub priv nullifier attestations bond now) x
      (openAccount P cfg L pub priv nullifier attestations bond now).1 := by
  have outcome := openAccount_outcome P cfg L pub priv nullifier attestations bond now
  generalize openAccount P cfg L pub priv nullifier attestations bond now = result at outcome
  cases outcome with
  | refused error => exact .kept rfl
  | thrown identity => exact .kept rfl
  | opened identity shard acc block admitted created =>
    obtain ⟨hcontent, hhash, happend, hroot, hsign⟩ := createBlock_eq_some created
    -- bonding moves the validator registry only
    have hheld : ∀ L₀ : EngineLedger F,
        (if bond then (L₀.bondStake pub (some MINT)).1 else L₀).held = L₀.held := by
      intro L₀
      obtain ⟨registry, hbond, _⟩ := bondStake_eq L₀ pub (some MINT)
      cases bond
      · rfl
      · simp [hbond]
    by_cases hx : pub = x
    · subst hx
      refine .extended (b := block) (.inr ⟨admitted.fresh, rfl⟩)
        (?_ : _ = some (Held.mk _ acc)) ?_
      · simp only [hheld]
        exact (get?_hold _ pub _ pub).trans (if_pos rfl)
      · exact
          { account := by rw [hcontent]
            hash := by rw [hcontent, hhash]
            append := happend
            root := hroot
            opens := fun _ => by rw [hcontent]; exact ⟨rfl, rfl, rfl⟩
            links := fun head hhead => by cases hhead
            minted := fun htype => by rw [hcontent] at htype; cases htype
            signed := .inr ⟨priv, rfl, hsign⟩ }
    · refine .kept ?_
      simp only [hheld]
      exact (get?_hold _ pub _ x).trans (if_neg hx)

/-- The calls that hold, extend or forget a chain. -/
def Call.holdsChains : Call F → Bool
  | .openAccount .. => true
  | .addBlock .. => true
  | .purgeAccount .. => true
  | .reset => true
  | c => c.author.isSome

theorem step_held {c : Call F} (hc : c.holdsChains = false) :
    (step P cfg L c).held = L.held := by
  by_cases hclerical : c.clerical = true
  · exact (step_clerical P cfg L hclerical).held
  cases c
  case applyEvidence ev =>
    simp only [step, applyEvidence, freezeEquivocator]
    split <;> [split; skip] <;> rfl
  case applyEvidenceFromBlocks a b =>
    simp only [step, applyEvidenceFromBlocks, applyEvidence, freezeEquivocator]
    split <;> [(split <;> [split; skip]); skip] <;> rfl
  case bondStake pub amount =>
    obtain ⟨_, h, _⟩ := bondStake_eq L pub amount
    simp only [step, h]
  case applyCommitteeVote vote => rfl
  case advanceEpoch betas active =>
    obtain ⟨_, _, _, _, _, h⟩ := advanceEpoch_eq P L betas active
    simp only [step, h]
  case setDiscoveredProviders records => rfl
  all_goals first | exact absurd rfl hclerical | cases hc

theorem step_moves (c : Call F) (x : Hex) : Moves P L c x (step P cfg L c) := by
  cases hauthor : c.author with
  | some author =>
    obtain ⟨pub, priv, now⟩ := author
    obtain ⟨r, hstep, outcome⟩ := step_of_author P cfg L hauthor
    rw [hstep]
    exact create_moves hauthor outcome x
  | none =>
    cases hc : c.holdsChains with
    | false => exact .kept (by rw [step_held hc])
    | true =>
      cases c
      case addBlock block now => exact addBlock_moves block now x
      case openAccount => exact openAccount_moves _ _ _ _ _ _ x
      case reset => exact .dropped rfl
      case purgeAccount pub =>
        by_cases hx : pub = x
        · subst hx
          exact .dropped (JsMap.get?_delete_self L.held pub)
        · exact .kept ((JsMap.get?_delete L.held pub x).trans (if_neg hx))
      all_goals first | exact absurd hc Bool.false_ne_true | cases hauthor

end NeuronWeb.EngineLedger
