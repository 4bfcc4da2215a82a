/-
  Node/AccountStore: the account chains that a node replicates
  (`engine/node/account-store.ts`).

  A genesis block is registered before its root is compared, so one with a wrong root leaves an
  account behind that has no blocks (`SpoiledGenesis`): the genuine chain is refused from then
  on, and a later block of the account makes `apply` throw. Without such a block no rejection
  leaves a trace (`clean_iff_unspoiled`).
-/
import NeuronWeb.Foundation.Run
import NeuronWeb.Ledger.Sample

set_option autoImplicit false

namespace NeuronWeb

variable {F : Type}

/-! ## The store -/

structure HeldAccount (F : Type) where
  blocks : List (Block F)
  accumulator : AccountAccumulator

structure AccountStore (F : Type) where
  verifySignatures : Bool
  accounts : JsMap Hex (HeldAccount F)

/-- What `apply` answers, or that it throws. -/
inductive ApplyResult where
  | ok
  | refused (reason : String)
  | thrown
  deriving DecidableEq

namespace AccountStore

/-- `new AccountStore(verifySignatures)`. -/
def new (verifySignatures : Bool) : AccountStore F := ⟨verifySignatures, JsMap.empty⟩

section Observations

variable (S : AccountStore F) (id : Hex)

def hasAccount : Bool := S.accounts.has id

def accountCount : Nat := S.accounts.entries.length

/-- Total blocks held across all accounts. -/
def blockCount : Nat := (S.accounts.values.map fun a => a.blocks.length).sum

def head : Option (Block F) := (S.accounts.get? id).bind fun a => a.blocks.getLast?

def chain : List (Block F) := ((S.accounts.get? id).map fun a => a.blocks).getD []

/-- The proof of the head, if there is one; the outer `none` is an accumulator that throws. -/
def headProof (P : Primitives F) : Option (Option (AccountHeadProof F)) :=
  match S.accounts.get? id with
  | none => some none
  | some a =>
    match a.blocks.head?, a.blocks.getLast? with
    | some openBlock, some headBlock =>
      (a.accumulator.proofHex P 0).map fun proof => some ⟨openBlock, headBlock, proof⟩
    | _, _ => some none

end Observations

/-- `accounts.set(id, held)`. -/
def put (S : AccountStore F) (id : Hex) (held : HeldAccount F) : AccountStore F :=
  { S with accounts := S.accounts.set id held }

variable (P : Primitives F)

/-- Verify the accumulator root, then append. -/
def commit (S : AccountStore F) (held : HeldAccount F) (block : Block F) :
    AccountStore F × ApplyResult :=
  match held.accumulator.rootWithHex P block.hash, held.accumulator.append block.hash with
  | some root, some accumulator =>
    if root ≠ block.accumulatorRoot then (S, .refused "accumulator root mismatch")
    else (S.put block.accountId ⟨held.blocks ++ [block], accumulator⟩, .ok)
  | _, _ => (S, .thrown)

def applyGenesis (S : AccountStore F) (block : Block F) : AccountStore F × ApplyResult :=
  if block.type ≠ .open ∨ block.previousHash ≠ GENESIS_PREV then
    (S, .refused "index 0 must be a genesis open block")
  else
    match S.accounts.get? block.accountId with
    | some existing =>
      match existing.blocks.head? with
      | some g =>
        if g.hash = block.hash then (S, .ok)
        else (S, .refused "conflicting open block for existing account")
      | none => (S, .refused "conflicting open block for existing account")
    | none =>
      let held : HeldAccount F := ⟨[], []⟩
      -- registered first, and compared with its root afterwards
      commit P (S.put block.accountId held) held block

/-- The block at a height, if the array has one. -/
def blockAt (blocks : List (Block F)) (index : Int) : Option (Block F) :=
  if index < 0 then none else blocks[index.toNat]?

/-- Apply a block, validating it fully. -/
def apply (S : AccountStore F) (block : Block F) : AccountStore F × ApplyResult :=
  if computeContentHash P block.toBlockContent ≠ block.hash then
    (S, .refused "content hash mismatch")
  else if S.verifySignatures && !verifyBlockSignature P block then
    (S, .refused "invalid signature")
  else if block.index = 0 then applyGenesis P S block
  else
    match S.accounts.get? block.accountId with
    | none => (S, .refused "missing prior chain (genesis not seen yet)")
    | some held =>
      match held.blocks.getLast? with
      -- an account without blocks: `head.index` is read of `undefined`
      | none => (S, .thrown)
      | some head =>
        if block.index ≤ head.index then
          match blockAt held.blocks block.index with
          | some existing =>
            if existing.hash = block.hash then (S, .ok)
            else (S, .refused s!"stale or conflicting block at index {block.index}")
          | none => (S, .refused s!"stale or conflicting block at index {block.index}")
        else if block.index ≠ head.index + 1 then
          (S, .refused s!"non-sequential index {block.index} (head at {head.index})")
        else if block.previousHash ≠ head.hash then
          (S, .refused "previousHash does not match current head")
        else commit P S held block

def step (S : AccountStore F) (block : Block F) : AccountStore F := (apply P S block).1

/-! ## Rejecting without a trace -/

/-- Every observation is the same in both stores. -/
structure SameObservations (S S' : AccountStore F) : Prop where
  hasAccount : ∀ id, S'.hasAccount id = S.hasAccount id
  accountCount : S'.accountCount = S.accountCount
  chain : ∀ id, S'.chain id = S.chain id
  head : ∀ id, S'.head id = S.head id
  headProof : ∀ id, S'.headProof id P = S.headProof id P

/-- What `apply` answers to each of some blocks. -/
def results (S : AccountStore F) : List (Block F) → List ApplyResult
  | [] => []
  | block :: rest => (apply P S block).2 :: results (step P S block) rest

/-- No observation and no later call can tell the stores apart. -/
def Unnoticed (S S' : AccountStore F) : Prop :=
  ∀ later : List (Block F), SameObservations P (Run.final (step P) S later)
    (Run.final (step P) S' later) ∧ results P S' later = results P S later

/-- `apply` does not throw, and a rejection leaves no trace. -/
structure Clean (S : AccountStore F) (block : Block F) : Prop where
  answers : (apply P S block).2 ≠ .thrown
  traceless : ∀ reason, (apply P S block).2 = .refused reason → Unnoticed P S (step P S block)

/-- An authentic genesis block of an account that is not held, with a wrong root. -/
structure SpoiledGenesis (S : AccountStore F) (block : Block F) : Prop where
  content : computeContentHash P block.toBlockContent = block.hash
  signed : S.verifySignatures = true → verifyBlockSignature P block = true
  genesis : block.index = 0 ∧ block.type = .open ∧ block.previousHash = GENESIS_PREV
  unheld : S.accounts.get? block.accountId = none
  wrongRoot : AccountAccumulator.rootWithHex P [] block.hash ≠ some block.accumulatorRoot

/-- No held account is without blocks. -/
def Inhabited (S : AccountStore F) : Prop :=
  ∀ id held, S.accounts.get? id = some held → held.blocks ≠ []

variable {P} {S : AccountStore F} {block : Block F}

theorem SameObservations.refl (S : AccountStore F) : SameObservations P S S :=
  ⟨fun _ => rfl, rfl, fun _ => rfl, fun _ => rfl, fun _ => rfl⟩

theorem Unnoticed.refl (S : AccountStore F) : Unnoticed P S S :=
  fun _ => ⟨.refl _, rfl⟩

theorem commit_cases (S : AccountStore F) (held : HeldAccount F)
    (hcontent : computeContentHash P block.toBlockContent = block.hash) :
    (held.accumulator.rootWithHex P block.hash ≠ some block.accumulatorRoot ∧
        commit P S held block = (S, .refused "accumulator root mismatch")) ∨
      ∃ accumulator, commit P S held block =
        (S.put block.accountId ⟨held.blocks ++ [block], accumulator⟩, .ok) := by
  have happend := append_computeContentHash P block.toBlockContent held.accumulator
  rw [hcontent] at happend
  unfold commit AccountAccumulator.rootWithHex
  simp only [happend, Option.map_some]
  split
  · rename_i hroot
    exact .inl ⟨fun h => hroot (Option.some.inj h), rfl⟩
  · exact .inr ⟨_, rfl⟩

/-- What one call can do to a store whose accounts all have blocks. -/
inductive Outcome (P : Primitives F) (S : AccountStore F) (block : Block F) :
    AccountStore F × ApplyResult → Prop
  | refused (reason : String) : Outcome P S block (S, .refused reason)
  | known : Outcome P S block (S, .ok)
  | appended (blocks : List (Block F)) (accumulator : AccountAccumulator) :
      Outcome P S block (S.put block.accountId ⟨blocks ++ [block], accumulator⟩, .ok)
  | spoiled (h : SpoiledGenesis P S block) : Outcome P S block
      (S.put block.accountId ⟨[], []⟩, .refused "accumulator root mismatch")

theorem applyGenesis_outcome (hS : S.Inhabited)
    (hcontent : computeContentHash P block.toBlockContent = block.hash)
    (hsigned : S.verifySignatures = true → verifyBlockSignature P block = true)
    (hindex : block.index = 0) : Outcome P S block (applyGenesis P S block) := by
  unfold applyGenesis
  split
  · exact .refused _
  · rename_i hgenesis
    rw [not_or, ne_eq, ne_eq, not_not, not_not] at hgenesis
    cases hheld : S.accounts.get? block.accountId with
    | some existing =>
      dsimp only
      cases hfirst : existing.blocks.head? with
      | none => exact absurd (List.head?_eq_none_iff.mp hfirst) (hS _ _ hheld)
      | some g =>
        simp only
        split
        · exact .known
        · exact .refused _
    | none =>
      rcases commit_cases (S.put block.accountId ⟨[], []⟩) ⟨[], []⟩ hcontent with
        ⟨hroot, heq⟩ | ⟨accumulator, heq⟩
      · dsimp only
        rw [heq]
        exact .spoiled ⟨hcontent, hsigned, ⟨hindex, hgenesis⟩, hheld, hroot⟩
      · have hput : (S.put block.accountId ⟨[], []⟩).put block.accountId ⟨[] ++ [block],
            accumulator⟩ = S.put block.accountId ⟨[] ++ [block], accumulator⟩ := by
          simp only [put, JsMap.set_set]
        dsimp only
        rw [heq, hput]
        exact .appended [] accumulator

theorem apply_outcome (hS : S.Inhabited) (block : Block F) :
    Outcome P S block (apply P S block) := by
  unfold apply
  split
  · exact .refused _
  · rename_i hcontent
    rw [ne_eq, not_not] at hcontent
    split
    · exact .refused _
    · rename_i hsigned
      have hsigned : S.verifySignatures = true → verifyBlockSignature P block = true := by
        simpa using hsigned
      split
      · rename_i hindex
        exact applyGenesis_outcome hS hcontent hsigned hindex
      · cases hheld : S.accounts.get? block.accountId with
        | none => exact .refused _
        | some held =>
          dsimp only
          cases hhead : held.blocks.getLast? with
          | none => exact absurd (List.getLast?_eq_none_iff.mp hhead) (hS _ _ hheld)
          | some head =>
            simp only
            split
            · split
              · split
                · exact .known
                · exact .refused _
              · exact .refused _
            · split
              · exact .refused _
              · split
                · exact .refused _
                · rcases commit_cases S held hcontent with ⟨-, heq⟩ | ⟨accumulator, heq⟩
                  · rw [heq]
                    exact .refused _
                  · rw [heq]
                    exact .appended held.blocks accumulator

theorem get?_put (S : AccountStore F) (id : Hex) (held : HeldAccount F) (j : Hex) :
    (S.put id held).accounts.get? j = if id = j then some held else S.accounts.get? j :=
  JsMap.get?_set _ _ _ _

theorem inhabited_step (hS : S.Inhabited) (h : ¬ SpoiledGenesis P S block) :
    (step P S block).Inhabited := by
  have houtcome := apply_outcome (P := P) hS block
  unfold step
  generalize apply P S block = r at houtcome ⊢
  cases houtcome with
  | refused reason => exact hS
  | known => exact hS
  | appended blocks accumulator =>
    intro id held hheld
    rw [get?_put] at hheld
    split at hheld
    · rw [← Option.some.inj hheld]
      exact List.concat_ne_nil _ _
    · exact hS id held hheld
  | spoiled hspoiled => exact absurd hspoiled h

theorem SpoiledGenesis.apply_eq (h : SpoiledGenesis P S block) :
    apply P S block =
      (S.put block.accountId ⟨[], []⟩, .refused "accumulator root mismatch") := by
  have hsigned : (S.verifySignatures && !verifyBlockSignature P block) = false := by
    cases hverify : S.verifySignatures with
    | false => rfl
    | true => rw [h.signed hverify]; rfl
  obtain ⟨hindex, htype, hprevious⟩ := h.genesis
  unfold apply
  rw [if_neg (not_not.mpr h.content), hsigned, if_neg Bool.false_ne_true, if_pos hindex]
  unfold applyGenesis
  rw [if_neg (by simp [htype, hprevious]), h.unheld]
  rcases commit_cases (S.put block.accountId ⟨[], []⟩) ⟨[], []⟩ h.content with
    ⟨-, heq⟩ | ⟨accumulator, heq⟩
  · exact heq
  · have hroot := h.wrongRoot
    unfold commit at heq
    split at heq
    · rename_i root acc hrootWith happend
      split at heq
      · cases congrArg Prod.snd heq
      · rename_i hsame
        rw [ne_eq, not_not] at hsame
        exact absurd (hsame ▸ hrootWith) hroot
    · cases congrArg Prod.snd heq

theorem clean_iff (hS : S.Inhabited) : Clean P S block ↔ ¬ SpoiledGenesis P S block := by
  constructor
  · intro hclean hspoiled
    have heq := hspoiled.apply_eq
    have hunnoticed := (hclean.traceless _ (congrArg Prod.snd heq) []).1.hasAccount
      block.accountId
    have hstep : step P S block = S.put block.accountId ⟨[], []⟩ := congrArg Prod.fst heq
    have hbefore : S.hasAccount block.accountId = false :=
      (JsMap.has_eq_false_iff _ _).mpr hspoiled.unheld
    have hafter : (S.put block.accountId ⟨[], []⟩).hasAccount block.accountId = true :=
      (JsMap.has_iff _ _).mpr ⟨_, JsMap.get?_set_self _ _ _⟩
    rw [Run.final_nil, Run.final_nil, hstep, hbefore, hafter] at hunnoticed
    cases hunnoticed
  · intro hspoiled
    have houtcome := apply_outcome (P := P) hS block
    cases hresult : apply P S block with
    | mk S' result =>
      rw [hresult] at houtcome
      have hstep : step P S block = S' := congrArg Prod.fst hresult
      cases houtcome with
      | refused reason =>
        refine ⟨by rw [hresult]; exact ApplyResult.noConfusion, fun _ _ => ?_⟩
        rw [hstep]
        exact .refl S
      | known =>
        refine ⟨by rw [hresult]; exact ApplyResult.noConfusion, fun _ h => ?_⟩
        rw [hresult] at h
        cases h
      | appended blocks accumulator =>
        refine ⟨by rw [hresult]; exact ApplyResult.noConfusion, fun _ h => ?_⟩
        rw [hresult] at h
        cases h
      | spoiled h => exact absurd h hspoiled

/-- Whatever blocks a store is given, all calls are clean exactly when no block is a genesis
block with a wrong root for an account that is not held. -/
theorem clean_iff_unspoiled (P : Primitives F) (verifySignatures : Bool)
    (blocks : List (Block F)) :
    Run.EveryStep (step P) (fun S block _ => Clean P S block) (new verifySignatures) blocks ↔
      Run.StepsMeet (step P) (fun S block => ¬ SpoiledGenesis P S block) (new verifySignatures)
        blocks := by
  have hnew : (new verifySignatures : AccountStore F).Inhabited := fun _ _ h => by cases h
  exact Run.everyStep_iff_stepsMeet_of_kept
    (R := fun S block _ => Clean P S block) (C := fun S block => ¬ SpoiledGenesis P S block)
    (Q := Inhabited) (N := fun _ _ => True)
    (fun S block hS _ hclean => inhabited_step hS ((clean_iff hS).mp hclean))
    (fun S block hS _ => clean_iff hS) hnew
    (Run.stepsMeet_of_forall (fun _ _ => trivial) _ _)

/-! ## A spoiled account -/

/-- Alice's genesis block as she publishes it. -/
def aliceGenesis : Block Rat :=
  Sample.continuing (EngineLedger.new Sample.primitives)
    (Sample.header (EngineLedger.new Sample.primitives) "alice")

/-- The same block under another root, which she has signed too. -/
def aliceSpoiled : Block Rat :=
  { aliceGenesis with
    accumulatorRoot := ""
    signature := Sample.signature (blockSigningMessage aliceGenesis.hash "") "alice" }

/-- The block that Alice signs on top of it. -/
def aliceNext : Block Rat :=
  Sample.continuing (EngineLedger.new Sample.primitives)
    (EngineLedger.nextContent aliceGenesis "alice" .update 0 MINT)

/-- Once the spoiled block is rejected, the genuine one is refused, and the next one throws. -/
theorem spoiled_genesis_blocks_chain :
    (apply Sample.primitives (new true) aliceGenesis).2 = .ok ∧
      (apply Sample.primitives (new true) aliceSpoiled).2 =
        .refused "accumulator root mismatch" ∧
      (step Sample.primitives (new true) aliceSpoiled).hasAccount "alice" = true ∧
      (apply Sample.primitives (step Sample.primitives (new true) aliceSpoiled) aliceGenesis).2 =
        .refused "conflicting open block for existing account" ∧
      (apply Sample.primitives (step Sample.primitives (new true) aliceSpoiled) aliceNext).2 =
        .thrown := by
  decide +kernel

end AccountStore

end NeuronWeb
