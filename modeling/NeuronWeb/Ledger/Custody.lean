/-
  Ledger/Custody: who holds a token.

  Each account's own chain says whether the account holds a token: the last of its blocks
  that name the token decides (`lastWord`).  The custody records keep these words, and the
  owner index picks a holder.  The index depends on the order in which blocks arrive only
  while a token has several apparent holders.
-/
import Mathlib.Data.List.Induction
import NeuronWeb.Ledger.Effects

set_option autoImplicit false

namespace NeuronWeb.EngineLedger

variable {F : Type}

/-! ## Words -/

/-- What a block says about the token it names: its account holds it afterwards, or not. -/
def said (b : Block F) : Option Bool :=
  match b.type with
  | .nftMint => if truthy b.contentRef then some true else none
  | .nftSend => if truthy b.recipient then some false else none
  | .nftReceive => some true
  | .nftBurn => some false
  | _ => none

/-- What a block says about a token, if anything. -/
def wordOn (tokenId : Hex) (b : Block F) : Option Bool :=
  if b.tokenId = some tokenId ∧ tokenId ≠ "" then said b else none

variable {b : Block F}

theorem wordOn_eq_some {tokenId : Hex} {holds : Bool} :
    wordOn tokenId b = some holds ↔
      b.tokenId = some tokenId ∧ tokenId ≠ "" ∧ said b = some holds := by
  unfold wordOn
  split
  · rename_i h
    simp [h.1, h.2]
  · rename_i h
    constructor
    · intro hnone
      cases hnone
    · exact fun ⟨htoken, hne, _⟩ => absurd ⟨htoken, hne⟩ h

theorem wordOn_of_said (h : said b = none) (tokenId : Hex) : wordOn tokenId b = none := by
  unfold wordOn
  rw [h, ite_self]

theorem wordOn_of_tokenId (h : truthy b.tokenId = false) (tokenId : Hex) :
    wordOn tokenId b = none := by
  unfold wordOn
  rw [if_neg]
  rintro ⟨htoken, hne⟩
  simp [truthy, htoken, hne] at h

theorem wordOn_ne {tokenId other : Hex} (h : b.tokenId = some tokenId)
    (hne : tokenId ≠ other) : wordOn other b = none := by
  unfold wordOn
  rw [if_neg]
  rintro ⟨hother, _⟩
  rw [h] at hother
  exact hne (Option.some.inj hother)

/-- The block has its say on the token. -/
def names (tokenId : Hex) (b : Block F) : Bool := (wordOn tokenId b).isSome

theorem names_iff {tokenId : Hex} :
    names tokenId b = true ↔ ∃ holds, wordOn tokenId b = some holds :=
  Option.isSome_iff_exists

theorem names_eq_false {tokenId : Hex} : names tokenId b = false ↔ wordOn tokenId b = none := by
  simp [names]

theorem tokenId_of_names {tokenId : Hex} (h : names tokenId b = true) :
    b.tokenId = some tokenId ∧ tokenId ≠ "" := by
  obtain ⟨holds, hword⟩ := names_iff.mp h
  obtain ⟨htoken, hne, _⟩ := wordOn_eq_some.mp hword
  exact ⟨htoken, hne⟩

/-- The custody record that a chain ends with. -/
def lastWord (tokenId : Hex) (chain : List (Block F)) : Option NftCustody :=
  chain.foldl (fun word b =>
    match wordOn tokenId b with
    | some holds => some ⟨b.index, holds⟩
    | none => word) none

@[simp] theorem lastWord_nil (tokenId : Hex) : lastWord (F := F) tokenId [] = none := rfl

theorem lastWord_append (tokenId : Hex) (chain : List (Block F)) (b : Block F) :
    lastWord tokenId (chain ++ [b]) =
      match wordOn tokenId b with
      | some holds => some ⟨b.index, holds⟩
      | none => lastWord tokenId chain := by
  simp [lastWord, List.foldl_append]

theorem exists_of_lastWord {tokenId : Hex} {chain : List (Block F)} {word : NftCustody}
    (h : lastWord tokenId chain = some word) :
    ∃ b ∈ chain, wordOn tokenId b = some word.holds ∧ word.index = b.index := by
  induction chain using List.reverseRecOn with
  | nil => cases h
  | append_singleton chain b ih =>
    rw [lastWord_append] at h
    cases hword : wordOn tokenId b with
    | some holds =>
      rw [hword] at h
      cases h
      exact ⟨b, by simp, hword, rfl⟩
    | none =>
      rw [hword] at h
      obtain ⟨b', hb', hfacts⟩ := ih h
      exact ⟨b', List.mem_append_left _ hb', hfacts⟩

theorem lastWord_filter (tokenId : Hex) (chain : List (Block F)) :
    lastWord tokenId (chain.filter (names tokenId)) = lastWord tokenId chain := by
  induction chain using List.reverseRecOn with
  | nil => rfl
  | append_singleton chain b ih =>
    rw [List.filter_append, lastWord_append]
    cases hword : wordOn tokenId b with
    | none =>
      rw [List.filter_cons_of_neg (by simp [names, hword]), List.filter_nil, List.append_nil,
        ih]
    | some holds =>
      rw [List.filter_cons_of_pos (by simp [names, hword]), List.filter_nil, lastWord_append,
        hword]

/-! ## Records -/

/-- The custody record of an account for a token. -/
def custodyOf (L : EngineLedger F) (tokenId x : Hex) : Option NftCustody :=
  (L.nftCustody.get? tokenId).bind fun perAccount => perAccount.get? x

/-- The account's latest word on the token is that it holds it. -/
def Holder (L : EngineLedger F) (tokenId x : Hex) : Prop :=
  ∃ index, L.custodyOf tokenId x = some ⟨index, true⟩

/-- The owner index of a token is right about it: a burned token has no owner, and any other
one that is held has an owner among its holders. -/
structure OwnedByHolder (L : EngineLedger F) (tokenId : Hex) : Prop where
  burned : L.burnedNfts.has tokenId = true → L.nftOwner.get? tokenId = none
  holder : ∀ owner, L.nftOwner.get? tokenId = some owner → L.Holder tokenId owner
  owned : L.burnedNfts.has tokenId = false → ∀ x, L.Holder tokenId x →
    ∃ owner, L.nftOwner.get? tokenId = some owner

theorem mem_holders {perAccount : JsMap Hex NftCustody} {x : Hex} :
    x ∈ holders perAccount ↔ ∃ index, perAccount.get? x = some ⟨index, true⟩ := by
  simp only [holders, List.mem_map, List.mem_filter, Prod.exists, exists_and_right,
    exists_eq_right, JsMap.get?_eq_some_iff]
  constructor
  · rintro ⟨⟨index, held⟩, hmem, hholds⟩
    exact ⟨index, by simpa [← hholds] using hmem⟩
  · rintro ⟨index, hmem⟩
    exact ⟨⟨index, true⟩, hmem, rfl⟩

theorem holder_iff_mem_holders {L : EngineLedger F} {tokenId : Hex}
    {perAccount : JsMap Hex NftCustody} (h : L.nftCustody.get? tokenId = some perAccount)
    (x : Hex) : L.Holder tokenId x ↔ x ∈ holders perAccount := by
  rw [mem_holders]
  simp [Holder, custodyOf, h]

theorem nftOwner_recomputeNftOwner_ne (L : EngineLedger F) {tokenId other : Hex}
    (h : tokenId ≠ other) :
    (L.recomputeNftOwner tokenId).nftOwner.get? other = L.nftOwner.get? other := by
  unfold recomputeNftOwner
  split
  · simp [JsMap.get?_delete, h]
  · split
    · rfl
    · split
      · simp [JsMap.get?_delete, h]
      · simp [JsMap.get?_set, h]
      · simp only
        split
        · split
          · simp [JsMap.get?_set, h]
          · rfl
        · simp [JsMap.get?_set, h]

theorem ownedByHolder_set {L : EngineLedger F} {tokenId owner : Hex}
    (hburned : L.burnedNfts.has tokenId = false) (howner : L.Holder tokenId owner) :
    OwnedByHolder { L with nftOwner := L.nftOwner.set tokenId owner } tokenId where
  burned h := by
    rw [show L.burnedNfts.has tokenId = true from h] at hburned
    cases hburned
  holder o h := by
    rw [JsMap.get?_set_self] at h
    cases h
    exact howner
  owned _ _ _ := ⟨owner, by simp⟩

/-- The owner index is right about a token whose owner has just been re-derived. -/
theorem ownedByHolder_recomputeNftOwner {L : EngineLedger F} {tokenId : Hex}
    {perAccount : JsMap Hex NftCustody} (h : L.nftCustody.get? tokenId = some perAccount) :
    OwnedByHolder (L.recomputeNftOwner tokenId) tokenId := by
  have hmem := holder_iff_mem_holders h
  unfold recomputeNftOwner
  cases hburned : L.burnedNfts.has tokenId with
  | true =>
    simp only [if_true]
    exact ⟨fun _ => by simp, fun o ho => by simp at ho, fun hnot => by
      rw [show L.burnedNfts.has tokenId = false from hnot] at hburned
      cases hburned⟩
  | false =>
    simp only [Bool.false_eq_true, if_false, h]
    cases hholders : holders perAccount with
    | nil =>
      refine ⟨fun _ => by simp, fun o ho => by simp at ho, fun _ x hx => ?_⟩
      have hin : x ∈ holders perAccount := (hmem x).mp hx
      rw [hholders] at hin
      cases hin
    | cons first rest =>
      cases rest with
      | nil =>
        exact ownedByHolder_set hburned ((hmem first).mpr (by simp [hholders]))
      | cons next rest =>
        have hlast : L.Holder tokenId ((next :: rest).getLast (List.cons_ne_nil _ _)) :=
          (hmem _).mpr (by
            rw [hholders]
            exact List.mem_cons_of_mem _ (List.getLast_mem _))
        simp only
        split
        · rename_i current hcurrent
          split
          · exact ownedByHolder_set hburned hlast
          · rename_i hkept
            -- the incumbent is among the holders and stays
            simp only [not_or, Decidable.not_not] at hkept
            refine ⟨fun hnot => ?_, fun o ho => ?_, fun _ _ _ => ⟨current, hcurrent⟩⟩
            · rw [hburned] at hnot
              cases hnot
            · rw [hcurrent] at ho
              cases ho
              exact (hmem current).mpr (hholders ▸ hkept.2)
        · exact ownedByHolder_set hburned hlast

/-! ## Recording a word -/

@[simp] theorem burnedNfts_recordNftCustody (L : EngineLedger F) (tokenId x : Hex) (index : Int)
    (holds : Bool) : (L.recordNftCustody tokenId x index holds).burnedNfts = L.burnedNfts := by
  obtain ⟨nftOwner, nftCustody, heq⟩ := recordNftCustody_eq L tokenId x index holds
  rw [heq]

@[simp] theorem nftInfo_recordNftCustody (L : EngineLedger F) (tokenId x : Hex) (index : Int)
    (holds : Bool) : (L.recordNftCustody tokenId x index holds).nftInfo = L.nftInfo := by
  obtain ⟨nftOwner, nftCustody, heq⟩ := recordNftCustody_eq L tokenId x index holds
  rw [heq]

variable {L : EngineLedger F} {tokenId x : Hex} {index : Int}

theorem recordNftCustody_of_newer (holds : Bool)
    (newer : ∀ word, L.custodyOf tokenId x = some word → word.index < index) :
    ∃ perAccount, perAccount.get? x = some ⟨index, holds⟩ ∧
      (∀ y, x ≠ y → perAccount.get? y = L.custodyOf tokenId y) ∧
      L.recordNftCustody tokenId x index holds =
        recomputeNftOwner { L with nftCustody := L.nftCustody.set tokenId perAccount } tokenId := by
  let perAccount := (L.nftCustody.get? tokenId).getD JsMap.empty
  have hlookup : ∀ y, perAccount.get? y = L.custodyOf tokenId y := by
    intro y
    simp only [perAccount, custodyOf]
    cases L.nftCustody.get? tokenId <;> simp
  have hnew : supersedes perAccount x index = true := by
    unfold supersedes
    rw [hlookup]
    split
    · rename_i word hword
      exact decide_eq_true (newer word hword)
    · rfl
  refine ⟨perAccount.set x ⟨index, holds⟩, by simp, fun y hy => ?_, ?_⟩
  · rw [JsMap.get?_set_ne _ _ hy, hlookup]
  · unfold recordNftCustody
    simp only
    rw [if_pos hnew]

theorem custodyOf_recordNftCustody (holds : Bool)
    (newer : ∀ word, L.custodyOf tokenId x = some word → word.index < index) (u y : Hex) :
    (L.recordNftCustody tokenId x index holds).custodyOf u y =
      if tokenId = u ∧ x = y then some ⟨index, holds⟩ else L.custodyOf u y := by
  obtain ⟨perAccount, hself, hothers, heq⟩ := recordNftCustody_of_newer holds newer
  obtain ⟨nftOwner, howner⟩ := recomputeNftOwner_eq
    { L with nftCustody := L.nftCustody.set tokenId perAccount } tokenId
  rw [heq, howner]
  unfold custodyOf
  simp only [JsMap.get?_set]
  by_cases hu : tokenId = u
  · subst hu
    by_cases hy : x = y
    · subst hy
      simp [hself]
    · simp only [if_true, Option.bind_some, hothers y hy, hy, and_false, if_false]
      rfl
  · simp [hu]

theorem ownedByHolder_recordNftCustody (holds : Bool)
    (newer : ∀ word, L.custodyOf tokenId x = some word → word.index < index) :
    OwnedByHolder (L.recordNftCustody tokenId x index holds) tokenId := by
  obtain ⟨perAccount, _, _, heq⟩ := recordNftCustody_of_newer holds newer
  rw [heq]
  have hget : (L.nftCustody.set tokenId perAccount).get? tokenId = some perAccount := by simp
  exact ownedByHolder_recomputeNftOwner hget

theorem nftOwner_recordNftCustody_ne (holds : Bool) {other : Hex} (h : tokenId ≠ other) :
    (L.recordNftCustody tokenId x index holds).nftOwner.get? other = L.nftOwner.get? other := by
  unfold recordNftCustody
  simp only
  split
  · rw [nftOwner_recomputeNftOwner_ne _ h]
  · rfl

theorem OwnedByHolder.congr {L' : EngineLedger F} (h : L.OwnedByHolder tokenId)
    (hburned : L'.burnedNfts.has tokenId = L.burnedNfts.has tokenId)
    (howner : L'.nftOwner.get? tokenId = L.nftOwner.get? tokenId)
    (hcustody : ∀ y, L'.custodyOf tokenId y = L.custodyOf tokenId y) :
    L'.OwnedByHolder tokenId := by
  have hholder : ∀ y, L'.Holder tokenId y ↔ L.Holder tokenId y := by
    intro y
    simp only [Holder, hcustody]
  refine ⟨fun hb => ?_, fun owner ho => ?_, fun hb y hy => ?_⟩
  · rw [howner]
    exact h.burned (hburned ▸ hb)
  · rw [howner] at ho
    exact (hholder owner).mpr (h.holder owner ho)
  · rw [howner]
    exact h.owned (hburned ▸ hb) y ((hholder y).mp hy)

/-! ## The blocks that name a token -/

section Cases

variable (L : EngineLedger F) {b : Block F}

theorem wordOn_of_missing (h : truthy b.tokenId = false ∨ said b = none) (tokenId : Hex) :
    wordOn tokenId b = none := by
  rcases h with h | h
  · exact wordOn_of_tokenId h tokenId
  · exact wordOn_of_said h tokenId

/-- A mint that lacks a field does nothing, any other one keeps its record and its word. -/
theorem applyNftMint_cases (htype : b.type = .nftMint) :
    ((∀ t, wordOn t b = none) ∧ L.applyNftMint b = L) ∨
      ∃ token content, wordOn token b = some true ∧ b.contentRef = some content ∧
        L.applyNftMint b =
          ({ L with nftInfo := L.nftInfo.set token (mintInfo b.toBlockContent content) }
            |>.recordNftCustody token b.accountId b.index true) := by
  unfold applyNftMint
  split
  · rename_i token content htoken hcontent
    split
    · rename_i hempty
      refine .inl ⟨wordOn_of_missing (hempty.imp (fun h => ?_) fun h => ?_), rfl⟩
      · simp [truthy, htoken, h]
      · simp [said, htype, truthy, hcontent, h]
    · rename_i hne
      rw [not_or] at hne
      exact .inr ⟨token, content, wordOn_eq_some.mpr
        ⟨htoken, hne.1, by simp [said, htype, truthy, hcontent, hne.2]⟩, hcontent, rfl⟩
  · rename_i hfields
    refine .inl ⟨wordOn_of_missing ?_, rfl⟩
    cases htoken : b.tokenId with
    | none => exact .inl rfl
    | some token =>
      cases hcontent : b.contentRef with
      | none => exact .inr (by simp [said, htype, hcontent, truthy])
      | some content => exact absurd hcontent (hfields token content htoken)

theorem applyNftSend_cases (htype : b.type = .nftSend) :
    ((∀ t, wordOn t b = none) ∧ L.applyNftSend b = L) ∨
      ∃ token unclaimedNftTransfers, wordOn token b = some false ∧
        L.applyNftSend b =
          { L.recordNftCustody token b.accountId b.index false with unclaimedNftTransfers } := by
  unfold applyNftSend
  split
  · rename_i token recipient htoken hrecipient
    split
    · rename_i hempty
      refine .inl ⟨wordOn_of_missing (hempty.imp (fun h => ?_) fun h => ?_), rfl⟩
      · simp [truthy, htoken, h]
      · simp [said, htype, truthy, hrecipient, h]
    · rename_i hne
      rw [not_or] at hne
      have hword : wordOn token b = some false :=
        wordOn_eq_some.mpr ⟨htoken, hne.1, by simp [said, htype, truthy, hrecipient, hne.2]⟩
      simp only
      split
      · exact .inr ⟨token, _, hword, rfl⟩
      · exact .inr ⟨token, _, hword, rfl⟩
  · rename_i hfields
    refine .inl ⟨wordOn_of_missing ?_, rfl⟩
    cases htoken : b.tokenId with
    | none => exact .inl rfl
    | some token =>
      cases hrecipient : b.recipient with
      | none => exact .inr (by simp [said, htype, hrecipient, truthy])
      | some recipient => exact absurd hrecipient (hfields token recipient htoken)

/-- A receive without a token does nothing, any other one claims its source and keeps its
word. -/
theorem applyNftReceive_cases (htype : b.type = .nftReceive) :
    ((∀ t, wordOn t b = none) ∧ L.applyNftReceive b = L) ∨
      ∃ token, wordOn token b = some true ∧ L.applyNftReceive b =
        (L.claimNftTransfer b.sourceHash).recordNftCustody token b.accountId b.index true := by
  unfold applyNftReceive
  split
  · rename_i token htoken
    split
    · rename_i hempty
      exact .inl ⟨wordOn_of_tokenId (by simp [truthy, htoken, hempty]), rfl⟩
    · rename_i hne
      exact .inr ⟨token, wordOn_eq_some.mpr ⟨htoken, hne, by simp [said, htype]⟩, rfl⟩
  · rename_i htoken
    exact .inl ⟨wordOn_of_tokenId (by simp [truthy, htoken]), rfl⟩

/-- A burn without a token does nothing, any other one marks the token, keeps its word and
leaves no owner. -/
theorem applyNftBurn_cases (htype : b.type = .nftBurn) :
    ((∀ t, wordOn t b = none) ∧ L.applyNftBurn b = L) ∨
      ∃ token, wordOn token b = some false ∧
        let burnt := ({ L with burnedNfts := JsSet.add L.burnedNfts token }
          |>.recordNftCustody token b.accountId b.index false)
        L.applyNftBurn b = { burnt with nftOwner := burnt.nftOwner.delete token } := by
  unfold applyNftBurn
  split
  · rename_i token htoken
    split
    · rename_i hempty
      exact .inl ⟨wordOn_of_tokenId (by simp [truthy, htoken, hempty]), rfl⟩
    · rename_i hne
      exact .inr ⟨token, wordOn_eq_some.mpr ⟨htoken, hne, by simp [said, htype]⟩, rfl⟩
  · rename_i htoken
    exact .inl ⟨wordOn_of_tokenId (by simp [truthy, htoken]), rfl⟩

end Cases

/-! ## The effect of a block -/

/-- What appending the block `b` does to the records about tokens. -/
structure CustodyEffect (b : Block F) (L L' : EngineLedger F) : Prop where
  burned : ∀ tokenId, L'.burnedNfts.has tokenId = true ↔
    L.burnedNfts.has tokenId = true ∨ (b.type = .nftBurn ∧ names tokenId b = true)
  info : ∀ tokenId, L'.nftInfo.get? tokenId =
    if b.type = .nftMint ∧ names tokenId b = true then
      some (mintInfo b.toBlockContent (b.contentRef.getD ""))
    else L.nftInfo.get? tokenId
  custody : ∀ tokenId x, L'.custodyOf tokenId x =
    match wordOn tokenId b with
    | some holds => if b.accountId = x then some ⟨b.index, holds⟩ else L.custodyOf tokenId x
    | none => L.custodyOf tokenId x
  owner : ∀ tokenId, L.OwnedByHolder tokenId → L'.OwnedByHolder tokenId

theorem custodyEffect_of_eq {b : Block F} {L' : EngineLedger F}
    (hword : ∀ tokenId, wordOn tokenId b = none) (hburned : L'.burnedNfts = L.burnedNfts)
    (hinfo : L'.nftInfo = L.nftInfo) (hcustody : L'.nftCustody = L.nftCustody)
    (howner : L'.nftOwner = L.nftOwner) : CustodyEffect b L L' := by
  have hnames : ∀ tokenId, names tokenId b = false := fun t => names_eq_false.mpr (hword t)
  have hcustodyOf : ∀ t x, L'.custodyOf t x = L.custodyOf t x := by
    intro t x
    rw [custodyOf, hcustody, custodyOf]
  refine ⟨fun t => ?_, fun t => ?_, fun t x => ?_, fun t h => ?_⟩
  · simp [hburned, hnames]
  · simp [hinfo, hnames]
  · rw [hword, hcustodyOf]
  · exact h.congr (by rw [hburned]) (by rw [howner]) (hcustodyOf t)

/-- A block that names a token: its word is recorded on top of a state `L₀` that differs
from `L` in what the type of the block writes elsewhere. -/
theorem custodyEffect_record {b : Block F} (L₀ : EngineLedger F) {L' : EngineLedger F}
    {holds : Bool} (hword : wordOn tokenId b = some holds)
    (newer : ∀ word, L.custodyOf tokenId b.accountId = some word → word.index < b.index)
    (hcustody₀ : L₀.nftCustody = L.nftCustody) (howner₀ : L₀.nftOwner = L.nftOwner)
    (hcustody : L'.nftCustody = (L₀.recordNftCustody tokenId b.accountId b.index holds).nftCustody)
    (hother : ∀ t, tokenId ≠ t → L'.nftOwner.get? t =
      (L₀.recordNftCustody tokenId b.accountId b.index holds).nftOwner.get? t)
    (howner : L'.OwnedByHolder tokenId)
    (hburned : ∀ t, L'.burnedNfts.has t = true ↔
      L.burnedNfts.has t = true ∨ (b.type = .nftBurn ∧ names t b = true))
    (hinfo : ∀ t, L'.nftInfo.get? t = if b.type = .nftMint ∧ names t b = true then
        some (mintInfo b.toBlockContent (b.contentRef.getD "")) else L.nftInfo.get? t) :
    CustodyEffect b L L' := by
  have hsame : ∀ t x, L₀.custodyOf t x = L.custodyOf t x := by
    intro t x
    rw [custodyOf, hcustody₀, custodyOf]
  have hnewer : ∀ word, L₀.custodyOf tokenId b.accountId = some word → word.index < b.index :=
    fun word h => newer word (hsame tokenId b.accountId ▸ h)
  have htoken : b.tokenId = some tokenId := (wordOn_eq_some.mp hword).1
  have hcustodyOf : ∀ t x, L'.custodyOf t x =
      if tokenId = t ∧ b.accountId = x then some ⟨b.index, holds⟩ else L.custodyOf t x := by
    intro t x
    rw [← hsame, ← custodyOf_recordNftCustody holds hnewer, custodyOf, hcustody, custodyOf]
  refine ⟨hburned, hinfo, fun t x => ?_, fun t h => ?_⟩
  · rw [hcustodyOf]
    by_cases ht : tokenId = t
    · subst ht
      rw [hword]
      simp
    · rw [wordOn_ne htoken ht]
      simp [ht]
  · by_cases ht : tokenId = t
    · subst ht
      exact howner
    · have hnone : names t b = false := names_eq_false.mpr (wordOn_ne htoken ht)
      refine h.congr ?_ ?_ fun y => ?_
      · rw [Bool.eq_iff_iff, hburned, hnone]
        simp
      · rw [hother t ht, nftOwner_recordNftCustody_ne holds ht, howner₀]
      · rw [hcustodyOf]
        simp [ht]

section Types

variable {b : Block F}

variable (newer : ∀ t word, L.custodyOf t b.accountId = some word → word.index < b.index)

include newer

theorem applyNftMint_custodyEffect (htype : b.type = .nftMint) :
    CustodyEffect b L (L.applyNftMint b) := by
  rcases applyNftMint_cases L htype with ⟨hnone, h⟩ | ⟨token, content, hword, hcontent, h⟩
  · rw [h]
    exact custodyEffect_of_eq hnone rfl rfl rfl rfl
  · rw [h]
    refine custodyEffect_record
      { L with nftInfo := L.nftInfo.set token (mintInfo b.toBlockContent content) }
      hword (newer token) rfl rfl rfl (fun _ _ => rfl)
      (ownedByHolder_recordNftCustody true (newer token)) (fun t => ?_) (fun t => ?_)
    · simp [htype]
    · simp only [nftInfo_recordNftCustody, htype, true_and, hcontent, Option.getD_some,
        JsMap.get?_set]
      by_cases ht : token = t
      · subst ht
        simp [names, hword]
      · simp [names, wordOn_ne (wordOn_eq_some.mp hword).1 ht, ht]

theorem applyNftSend_custodyEffect (htype : b.type = .nftSend) :
    CustodyEffect b L (L.applyNftSend b) := by
  rcases applyNftSend_cases L htype with ⟨hnone, h⟩ | ⟨token, offers, hword, h⟩
  · rw [h]
    exact custodyEffect_of_eq hnone rfl rfl rfl rfl
  · rw [h]
    have howned := ownedByHolder_recordNftCustody false (newer token)
    exact custodyEffect_record L hword (newer token) rfl rfl rfl (fun _ _ => rfl)
      (howned.congr rfl rfl fun _ => rfl) (fun t => by simp [htype])
      (fun t => by simp [htype])

theorem applyNftReceive_custodyEffect (htype : b.type = .nftReceive) :
    CustodyEffect b L (L.applyNftReceive b) := by
  rcases applyNftReceive_cases L htype with ⟨hnone, h⟩ | ⟨token, hword, h⟩
  · rw [h]
    exact custodyEffect_of_eq hnone rfl rfl rfl rfl
  · rw [h]
    obtain ⟨claimed, offers, hclaim, _⟩ := claimNftTransfer_eq L b.sourceHash
    have hsame : ∀ t x, (L.claimNftTransfer b.sourceHash).custodyOf t x = L.custodyOf t x := by
      simp [custodyOf, hclaim]
    refine custodyEffect_record (L.claimNftTransfer b.sourceHash) hword (newer token)
      (by rw [hclaim]) (by rw [hclaim]) rfl
      (fun _ _ => rfl) (ownedByHolder_recordNftCustody true fun word h => ?_) (fun t => ?_)
      (fun t => ?_)
    · exact newer token word (hsame token b.accountId ▸ h)
    · simp [hclaim, htype]
    · simp [hclaim, htype]

theorem applyNftBurn_custodyEffect (htype : b.type = .nftBurn) :
    CustodyEffect b L (L.applyNftBurn b) := by
  rcases applyNftBurn_cases L htype with ⟨hnone, h⟩ | ⟨token, hword, h⟩
  · rw [h]
    exact custodyEffect_of_eq hnone rfl rfl rfl rfl
  · rw [h]
    refine custodyEffect_record { L with burnedNfts := JsSet.add L.burnedNfts token }
      hword (newer token) rfl rfl rfl (fun t ht => ?_) ?_ (fun t => ?_) (fun t => ?_)
    · simp [JsMap.get?_delete, ht]
    · exact ⟨fun _ => by simp, fun owner ho => by simp at ho, fun hb => by simp at hb⟩
    · simp only [burnedNfts_recordNftCustody, JsSet.has_add, Bool.or_eq_true,
        decide_eq_true_eq, htype, true_and]
      by_cases ht : token = t
      · subst ht
        simp [names, hword]
      · simp [names, wordOn_ne (wordOn_eq_some.mp hword).1 ht, ht]
    · simp [htype]

theorem applyBlock_custodyEffect [JsNumber F] (P : Primitives F) :
    CustodyEffect b L (applyBlock P L b) := by
  unfold applyBlock
  cases htype : b.type
  case nftMint => exact applyNftMint_custodyEffect newer htype
  case nftSend => exact applyNftSend_custodyEffect newer htype
  case nftReceive => exact applyNftReceive_custodyEffect newer htype
  case nftBurn => exact applyNftBurn_custodyEffect newer htype
  case send =>
    obtain ⟨_, h, _⟩ := applySend_eq L b
    exact custodyEffect_of_eq (wordOn_of_said (by simp [said, htype])) (by simp [h]) (by simp [h])
      (by simp [h]) (by simp [h])
  case receive =>
    obtain ⟨_, _, h, _⟩ := applyReceive_eq L b
    exact custodyEffect_of_eq (wordOn_of_said (by simp [said, htype])) (by simp [h]) (by simp [h])
      (by simp [h]) (by simp [h])
  case update =>
    obtain ⟨_, _, h⟩ := applyUpdate_eq L b
    exact custodyEffect_of_eq (wordOn_of_said (by simp [said, htype])) (by simp [h]) (by simp [h])
      (by simp [h]) (by simp [h])
  all_goals
    exact custodyEffect_of_eq (wordOn_of_said (by simp [said, htype])) rfl rfl rfl rfl

end Types

end NeuronWeb.EngineLedger
