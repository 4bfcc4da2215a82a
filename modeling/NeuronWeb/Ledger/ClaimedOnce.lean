/-
  Ledger/ClaimedOnce: a transfer is credited once.

  Every claim leaves its source in a claimed set, and the offers respect the sets.  The
  claims of foreign blocks do not: `addBlock` writes the sets and never reads them, so a
  second `receive` of one source is accepted like the first.
-/
import NeuronWeb.Ledger.Outcome
import NeuronWeb.Ledger.Sample

set_option autoImplicit false

namespace NeuronWeb.EngineLedger

variable {F : Type}

/-- No two held blocks of the type, on one account or on two, name the same source. -/
def ReceivesOnce (type : BlockType) (L : EngineLedger F) : Prop :=
  ∀ (x y : Hex) (i j : Nat) (b b' : Block F) (source : Hex),
    (L.getAccountChain x)[i]? = some b →
    (L.getAccountChain y)[j]? = some b' → b.type = type → b'.type = type →
    b.sourceHash = some source → b'.sourceHash = some source → source ≠ "" →
    x = y ∧ i = j

/-- No payment and no token is credited twice. -/
structure CreditedOnce (L : EngineLedger F) : Prop where
  sends : ReceivesOnce .receive L
  nfts : ReceivesOnce .nftReceive L

/-- Every held claim is recorded, and no token on offer has been claimed. -/
structure ClaimsRecorded (L : EngineLedger F) : Prop where
  sends : ∀ x, ∀ b ∈ L.getAccountChain x, b.type = .receive → ∀ source,
    b.sourceHash = some source → source ≠ "" → L.claimedSends.has source = true
  nfts : ∀ x, ∀ b ∈ L.getAccountChain x, b.type = .nftReceive → ∀ source,
    b.sourceHash = some source → source ≠ "" → L.claimedNftTransfers.has source = true
  offers : ∀ hash t, L.unclaimedNftTransfers.get? hash = some t →
    t.tokenId ≠ "" ∧ L.claimedNftTransfers.has hash = false

/-! ## Chains -/

theorem receivesOnce_of_forget {type : BlockType} {L L' : EngineLedger F}
    (h : ∀ x, L'.getAccountChain x <+: L.getAccountChain x) (hL : ReceivesOnce type L) :
    ReceivesOnce type L' := by
  have hkept : ∀ x (i : Nat) b, (L'.getAccountChain x)[i]? = some b →
      (L.getAccountChain x)[i]? = some b := fun x i b hb => by
    obtain ⟨rest, hrest⟩ := h x
    obtain ⟨hi, _⟩ := List.getElem?_eq_some_iff.mp hb
    rw [← hrest, List.getElem?_append_left hi]
    exact hb
  intro x y i j b b' source hb hb'
  exact hL x y i j b b' source (hkept x i b hb) (hkept y j b' hb')

theorem Appends.receivesOnce {type : BlockType} {L L' : EngineLedger F} {b : Block F}
    (h : Appends L L' b) (hL : ReceivesOnce type L)
    (hfresh : b.type = type → ∀ source, b.sourceHash = some source → source ≠ "" →
      ∀ x, ∀ b' ∈ L.getAccountChain x, b'.type = type → b'.sourceHash ≠ some source) :
    ReceivesOnce type L' := by
  intro x y i j b₁ b₂ source h₁ h₂ type₁ type₂ source₁ source₂ hne
  rcases h.getElem? h₁ with old₁ | ⟨rfl, rfl, rfl⟩ <;>
    rcases h.getElem? h₂ with old₂ | ⟨rfl, rfl, rfl⟩
  · exact hL x y i j b₁ b₂ source old₁ old₂ type₁ type₂ source₁ source₂ hne
  · exact absurd source₁ (hfresh type₂ source source₂ hne x b₁ (List.mem_of_getElem? old₁) type₁)
  · exact absurd source₂ (hfresh type₁ source source₁ hne y b₂ (List.mem_of_getElem? old₂) type₂)
  · exact ⟨rfl, rfl⟩

theorem creditedOnce_new (P : Primitives F) : CreditedOnce (new P) :=
  ⟨fun x y i j b b' source hb => by simp [new, getAccountChain] at hb,
    fun x y i j b b' source hb => by simp [new, getAccountChain] at hb⟩

theorem claimsRecorded_new (P : Primitives F) : ClaimsRecorded (new P) :=
  ⟨fun x b hb => by simp [new, getAccountChain] at hb,
    fun x b hb => by simp [new, getAccountChain] at hb, fun hash t ht => by simp [new] at ht⟩

/-! ## One call -/

theorem truthy_tokenId_of_checkNftReceive {L : EngineLedger F} {head block : BlockContent F}
    (h : L.checkNftReceive head block = none) : truthy block.tokenId = true := by
  unfold checkNftReceive at h
  split at h
  · cases h
  · split at h
    · cases h
    · rename_i hfields
      simp only [Bool.or_eq_true, Bool.not_eq_true', not_or, Bool.not_eq_false] at hfields
      exact hfields.1

variable [JsNumber F]

/-- No foreign claim that passes the checks of `addBlock` names a source that has been
claimed, and no send is claimed locally that has been claimed while it is on offer. -/
def FreshClaims (P : Primitives F) (L : EngineLedger F) : Call F → Prop
  | .addBlock block _ => ∀ h head acc source, Authentic P L block → Links L h head block →
      checkBlock P L head block = none → RootMatches P h block acc →
      block.sourceHash = some source → source ≠ "" →
      (block.type = .receive → L.claimedSends.has source = false) ∧
        (block.type = .nftReceive → L.claimedNftTransfers.has source = false)
  | .createReceive pub sendBlockHash _ _ => ∀ unclaimed,
      L.unclaimedSends.get? sendBlockHash = some unclaimed → unclaimed.toPub = pub →
      L.claimedSends.has sendBlockHash = false
  | _ => True

variable {P : Primitives F} {cfg : LedgerConfig} {L : EngineLedger F} {c : Call F}

theorem Origin.receive_fresh {b : Block F} (h : Origin P cfg L c b) (hc : FreshClaims P L c)
    (htype : b.type = .receive) {source : Hex} (hsource : b.sourceHash = some source)
    (hne : source ≠ "") : L.claimedSends.has source = false := by
  cases h with
  | drafted author stored last draft =>
    generalize hcontent : b.toBlockContent = content at draft htype hsource
    cases draft
    case receive unclaimed amt offered addressed rounded =>
      cases hsource
      exact hc unclaimed offered addressed
    all_goals cases htype
  | opened identity admitted account type => rw [type] at htype; cases htype
  | genesis authentic opens => rw [opens.type] at htype; cases htype
  | linked authentic links checked root =>
    exact (hc _ _ _ source authentic links checked root hsource hne).1 htype

theorem Origin.nftReceive_fresh {b : Block F} (h : Origin P cfg L c b) (hL : ClaimsRecorded L)
    (hc : FreshClaims P L c) (htype : b.type = .nftReceive) :
    truthy b.tokenId = true ∧ ∀ source, b.sourceHash = some source → source ≠ "" →
      L.claimedNftTransfers.has source = false := by
  cases h with
  | drafted author stored last draft =>
    generalize hcontent : b.toBlockContent = content at draft htype
    cases draft
    case nftReceive hash unclaimed notFrozen offered addressed =>
      obtain ⟨htoken, hclaimed⟩ := hL.offers hash unclaimed offered
      refine ⟨by simp [truthy, htoken], fun source hsource _ => ?_⟩
      cases hsource
      exact hclaimed
    all_goals cases htype
  | opened identity admitted account type => rw [type] at htype; cases htype
  | genesis authentic opens => rw [opens.type] at htype; cases htype
  | linked authentic links checked root =>
    refine ⟨?_, fun source hsource hne =>
      (hc _ _ _ source authentic links checked root hsource hne).2 htype⟩
    unfold checkBlock at checked
    simp only [htype] at checked
    exact truthy_tokenId_of_checkNftReceive checked

theorem creditedOnce_step (hL : ClaimsRecorded L) (honce : CreditedOnce L)
    (hc : FreshClaims P L c) : CreditedOnce (step P cfg L c) := by
  cases step_outcome P cfg L c with
  | quiet h =>
    exact ⟨receivesOnce_of_forget h.chain honce.sends, receivesOnce_of_forget h.chain honce.nfts⟩
  | appended b origin h =>
    constructor
    · refine h.receivesOnce honce.sends fun htype source hsource hne x b' hb' htype' hsame => ?_
      have hclaimed := hL.sends x b' hb' htype' source hsame hne
      rw [origin.receive_fresh hc htype hsource hne] at hclaimed
      cases hclaimed
    · refine h.receivesOnce honce.nfts fun htype source hsource hne x b' hb' htype' hsame => ?_
      have hclaimed := hL.nfts x b' hb' htype' source hsame hne
      rw [(origin.nftReceive_fresh hL hc htype).2 source hsource hne] at hclaimed
      cases hclaimed
  | froze h =>
    have hchain : ∀ x, (step P cfg L c).getAccountChain x <+: L.getAccountChain x :=
      fun x => h.chain x ▸ List.prefix_rfl
    exact ⟨receivesOnce_of_forget hchain honce.sends, receivesOnce_of_forget hchain honce.nfts⟩
  | reset h =>
    have hchain : ∀ x, (step P cfg L c).getAccountChain x <+: L.getAccountChain x :=
      fun x => h ▸ List.nil_prefix
    exact ⟨receivesOnce_of_forget hchain honce.sends, receivesOnce_of_forget hchain honce.nfts⟩

theorem claimsRecorded_step (hL : ClaimsRecorded L) (hc : FreshClaims P L c) :
    ClaimsRecorded (step P cfg L c) := by
  cases step_outcome P cfg L c with
  | quiet h =>
    refine ⟨fun x b hb => ?_, fun x b hb => ?_, fun hash t ht => ?_⟩
    · rw [h.claimedSends]
      exact hL.sends x b ((h.chain x).subset hb)
    · rw [h.claimedNftTransfers]
      exact hL.nfts x b ((h.chain x).subset hb)
    · rw [h.claimedNftTransfers]
      rcases h.nfts hash t ht with hold | ⟨_, hnew⟩
      · exact hL.offers hash t hold
      · exact hnew
  | appended b origin h =>
    refine ⟨fun x b' hb' htype source hsource hne => ?_,
      fun x b' hb' htype source hsource hne => ?_, fun hash t ht => ?_⟩
    · rcases h.mem hb' with hold | rfl
      · exact h.effect.keepsSends source (hL.sends x b' hold htype source hsource hne)
      · exact h.effect.claimsSend htype source hsource hne
    · rcases h.mem hb' with hold | rfl
      · exact h.effect.keepsNfts source (hL.nfts x b' hold htype source hsource hne)
      · exact h.effect.claimsNft htype (origin.nftReceive_fresh hL hc htype).1 source hsource hne
    · rcases h.effect.nfts hash t ht with ⟨hold, hback⟩ | ⟨_, htoken, hclaimed⟩
      · obtain ⟨htoken, hclaimed⟩ := hL.offers hash t hold
        exact ⟨htoken, Bool.eq_false_iff.mpr fun hnow => by simp [hback hnow] at hclaimed⟩
      · exact ⟨htoken, hclaimed⟩
  | froze h =>
    refine ⟨fun x b hb => ?_, fun x b hb => ?_, fun hash t ht => ?_⟩
    · rw [h.claimedSends]
      exact hL.sends x b (h.chain x ▸ hb)
    · rw [h.claimedNftTransfers]
      exact hL.nfts x b (h.chain x ▸ hb)
    · rw [h.claimedNftTransfers]
      exact hL.offers hash t (h.nfts hash t ht).1
  | reset h =>
    rw [h]
    exact ⟨fun x b hb => by simp [reset, new, getAccountChain] at hb,
      fun x b hb => by simp [reset, new, getAccountChain] at hb,
      fun hash t ht => by simp [reset, new] at ht⟩

/-! ## Every run -/

/-- In every run whose claims are fresh, no transfer is ever credited twice. -/
theorem credited_once (P : Primitives F) (cfg : LedgerConfig) (calls : List (Call F))
    (hcalls : Run.StepsMeet (step P cfg) (FreshClaims P) (new P) calls) :
    Run.Always (step P cfg) CreditedOnce (new P) calls :=
  Run.always_of_invariant (I := fun L => ClaimsRecorded L ∧ CreditedOnce L)
    (fun _ _ hL hc => ⟨claimsRecorded_step hL.1 hc, creditedOnce_step hL.1 hL.2 hc⟩)
    (fun _ hL => hL.2) ⟨claimsRecorded_new P, creditedOnce_new P⟩ hcalls

/-- Alice opens her account and receives the same payment twice. -/
def doubleReceiveRun : List (Call Rat) :=
  let opened : Call Rat := .openAccount "alice" "alice" "nullifier" [] false 0
  let receive (L : EngineLedger Rat) (index : Int) : Block Rat :=
    Sample.continuing L { (Sample.header L "alice") with
      type := .receive, balance := MINT + 5 * index, sourceHash := some "payment"
      amount := some 5 }
  let L₁ := step Sample.primitives Sample.config (new Sample.primitives) opened
  let first : Call Rat := .addBlock (receive L₁ 1) 1
  let L₂ := step Sample.primitives Sample.config L₁ first
  [opened, first, .addBlock (receive L₂ 2) 2]

/-- A run that claims a payment once. -/
theorem credited_once_first_receive :
    Run.Always (step Sample.primitives Sample.config) CreditedOnce (new Sample.primitives)
      (doubleReceiveRun.take 2) := by
  have hunclaimed : ∀ m : JsSet Hex, m.keys = [] → ∀ source, m.has source = false :=
    fun m hm source => Bool.eq_false_iff.mpr fun h => by simp [JsSet.has_iff_mem_keys, hm] at h
  refine credited_once Sample.primitives Sample.config _ ⟨trivial, ?_, trivial⟩
  intro h head acc source _ _ _ _ _ _
  exact ⟨fun _ => hunclaimed _ (by decide +kernel) source,
    fun _ => hunclaimed _ (by decide +kernel) source⟩

/-- A second `receive` of one source is accepted. -/
theorem payment_received_twice : ¬ ∀ calls : List (Call Rat),
    Run.Always (step Sample.primitives Sample.config) CreditedOnce (new Sample.primitives)
      calls := by
  intro hall
  have honce := (hall doubleReceiveRun).at_final.sends
  have hsame := honce "alice" "alice" 1 2 _ _ "payment"
    (Option.eq_some_of_isSome (by decide +kernel)) (Option.eq_some_of_isSome (by decide +kernel))
    (by decide +kernel) (by decide +kernel) (by decide +kernel) (by decide +kernel) (by decide)
  exact absurd hsame.2 (by decide)

end NeuronWeb.EngineLedger
