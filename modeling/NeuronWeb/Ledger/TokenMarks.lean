/-
  Ledger/TokenMarks: what the token records never forget.

  A purge takes a chain away and leaves the records that its blocks wrote. So every block that
  has once been appended stays marked (`Marked`), and `addBlock` meets the marks when the block
  comes again.
-/
import NeuronWeb.Ledger.Custody
import NeuronWeb.Ledger.Outcome

set_option autoImplicit false

namespace NeuronWeb.EngineLedger

variable {F : Type}

/-- What no call but a reset takes back. -/
structure KeepsMarks (L L' : EngineLedger F) : Prop where
  claimed : ∀ hash, L.claimedNftTransfers.has hash = true →
    L'.claimedNftTransfers.has hash = true
  info : ∀ t, L.nftInfo.has t = true → L'.nftInfo.has t = true
  burned : ∀ t, L.burnedNfts.has t = true → L'.burnedNfts.has t = true
  custody : ∀ t x c, L.custodyOf t x = some c →
    ∃ c', L'.custodyOf t x = some c' ∧ c.index ≤ c'.index
  owned : (∀ t, L.OwnedByHolder t) → ∀ t, L'.OwnedByHolder t

/-- What an appended block leaves in the token records. -/
structure Marked (L : EngineLedger F) (b : Block F) : Prop where
  custody : ∀ t holds, wordOn t b = some holds →
    ∃ c, L.custodyOf t b.accountId = some c ∧ b.index ≤ c.index
  claimed : b.type = .nftReceive → truthy b.tokenId = true → ∀ source,
    b.sourceHash = some source → source ≠ "" → L.claimedNftTransfers.has source = true
  minted : b.type = .nftMint → ∀ t, names t b = true → L.nftInfo.has t = true
  burned : b.type = .nftBurn → ∀ t, names t b = true → L.burnedNfts.has t = true

/-- The two ledgers have the same token records. -/
structure SameTokens (L L' : EngineLedger F) : Prop where
  owner : L'.nftOwner = L.nftOwner
  custody : L'.nftCustody = L.nftCustody
  info : L'.nftInfo = L.nftInfo
  burned : L'.burnedNfts = L.burnedNfts
  claimed : ∀ hash, L'.claimedNftTransfers.has hash = L.claimedNftTransfers.has hash

section Marks

variable {L L' L'' : EngineLedger F} {b : Block F}

theorem KeepsMarks.refl (L : EngineLedger F) : KeepsMarks L L :=
  ⟨fun _ h => h, fun _ h => h, fun _ h => h, fun _ _ c h => ⟨c, h, Int.le_refl _⟩, fun h => h⟩

theorem KeepsMarks.trans (h : KeepsMarks L L') (h' : KeepsMarks L' L'') : KeepsMarks L L'' where
  claimed hash hhash := h'.claimed hash (h.claimed hash hhash)
  info t ht := h'.info t (h.info t ht)
  burned t ht := h'.burned t (h.burned t ht)
  custody t x c hc := by
    obtain ⟨c', hc', hle⟩ := h.custody t x c hc
    obtain ⟨c'', hc'', hle'⟩ := h'.custody t x c' hc'
    exact ⟨c'', hc'', hle.trans hle'⟩
  owned howned := h'.owned (h.owned howned)

theorem SameTokens.refl (L : EngineLedger F) : SameTokens L L :=
  ⟨rfl, rfl, rfl, rfl, fun _ => rfl⟩

theorem SameTokens.trans (h : SameTokens L L') (h' : SameTokens L' L'') : SameTokens L L'' where
  owner := h'.owner.trans h.owner
  custody := h'.custody.trans h.custody
  info := h'.info.trans h.info
  burned := h'.burned.trans h.burned
  claimed hash := (h'.claimed hash).trans (h.claimed hash)

theorem SameTokens.keepsMarks (h : SameTokens L L') : KeepsMarks L L' where
  claimed hash hhash := by rwa [h.claimed]
  info t ht := by rwa [h.info]
  burned t ht := by rwa [h.burned]
  custody t x c hc := ⟨c, by rw [custodyOf, h.custody]; exact hc, Int.le_refl _⟩
  owned howned t := (howned t).congr (by rw [h.burned]) (by rw [h.owner]) fun y => by
    rw [custodyOf, h.custody, custodyOf]

theorem keepsMarks_of_eq (hclaimed : L'.claimedNftTransfers = L.claimedNftTransfers)
    (hinfo : L'.nftInfo = L.nftInfo) (hburned : L'.burnedNfts = L.burnedNfts)
    (hcustody : L'.nftCustody = L.nftCustody) (howner : L'.nftOwner = L.nftOwner) :
    KeepsMarks L L' :=
  SameTokens.keepsMarks ⟨howner, hcustody, hinfo, hburned, fun _ => by rw [hclaimed]⟩

theorem keepsMarks_hold (L : EngineLedger F) (x : Hex) (h : Held F) : KeepsMarks L (L.hold x h) :=
  keepsMarks_of_eq rfl rfl rfl rfl rfl

theorem keepsMarks_indexBlock (L : EngineLedger F) (b : Block F) : KeepsMarks L (L.indexBlock b) :=
  keepsMarks_of_eq rfl rfl rfl rfl rfl

theorem Marked.keeps (h : Marked L b) (keeps : KeepsMarks L L') : Marked L' b where
  custody t holds hword := by
    obtain ⟨c, hc, hle⟩ := h.custody t holds hword
    obtain ⟨c', hc', hle'⟩ := keeps.custody t b.accountId c hc
    exact ⟨c', hc', hle.trans hle'⟩
  claimed htype htoken source hsource hne := keeps.claimed source
    (h.claimed htype htoken source hsource hne)
  minted htype t hnames := keeps.info t (h.minted htype t hnames)
  burned htype t hnames := keeps.burned t (h.burned htype t hnames)

theorem marked_of_silent (hword : ∀ t, wordOn t b = none)
    (hclaims : b.type = .nftReceive → truthy b.tokenId = false) : Marked L b where
  custody t holds h := by
    rw [hword t] at h
    cases h
  claimed htype htoken := by
    rw [hclaims htype] at htoken
    cases htoken
  minted htype t hnames := by
    rw [names_eq_false.mpr (hword t)] at hnames
    cases hnames
  burned htype t hnames := by
    rw [names_eq_false.mpr (hword t)] at hnames
    cases hnames

theorem marked_of_said (hsaid : said b = none) : Marked L b :=
  marked_of_silent (wordOn_of_said hsaid) fun htype => by simp [said, htype] at hsaid

end Marks

/-! ## Recording a word -/

section Words

variable {L : EngineLedger F} {t x : Hex} {index : Int}

theorem recordNftCustody_cases (L : EngineLedger F) (t x : Hex) (index : Int) (holds : Bool) :
    (∀ word, L.custodyOf t x = some word → word.index < index) ∨
      ((∃ word, L.custodyOf t x = some word ∧ index ≤ word.index) ∧
        L.recordNftCustody t x index holds = L) := by
  have hlookup : ((L.nftCustody.get? t).getD JsMap.empty).get? x = L.custodyOf t x := by
    unfold custodyOf
    cases L.nftCustody.get? t <;> simp
  cases hword : L.custodyOf t x with
  | none => exact .inl fun word h => by cases h
  | some word =>
    by_cases hlt : word.index < index
    · exact .inl fun word' h => Option.some.inj h ▸ hlt
    · refine .inr ⟨⟨word, rfl, by omega⟩, ?_⟩
      unfold recordNftCustody
      refine if_neg ?_
      unfold supersedes
      rw [hlookup, hword]
      simpa using hlt

theorem OwnedByHolder.recordNftCustody_ne {u : Hex} (h : L.OwnedByHolder u) (hne : t ≠ u)
    (holds : Bool) : (L.recordNftCustody t x index holds).OwnedByHolder u := by
  rcases recordNftCustody_cases L t x index holds with newer | ⟨-, heq⟩
  · refine h.congr (by rw [burnedNfts_recordNftCustody]) (nftOwner_recordNftCustody_ne holds hne)
      fun y => ?_
    rw [custodyOf_recordNftCustody holds newer, if_neg fun heq => hne heq.1]
  · rwa [heq]

theorem keepsMarks_recordNftCustody (L : EngineLedger F) (t x : Hex) (index : Int)
    (holds : Bool) : KeepsMarks L (L.recordNftCustody t x index holds) := by
  rcases recordNftCustody_cases L t x index holds with newer | ⟨-, heq⟩
  · obtain ⟨nftOwner, nftCustody, heq⟩ := recordNftCustody_eq L t x index holds
    refine ⟨fun hash h => by rwa [heq], fun u h => by rwa [heq], fun u h => by rwa [heq], ?_, ?_⟩
    · intro u y c hc
      rw [custodyOf_recordNftCustody holds newer]
      by_cases hhere : t = u ∧ x = y
      · obtain ⟨rfl, rfl⟩ := hhere
        exact ⟨_, if_pos ⟨rfl, rfl⟩, Int.le_of_lt (newer c hc)⟩
      · exact ⟨c, (if_neg hhere).trans hc, Int.le_refl _⟩
    · intro howned u
      by_cases hu : t = u
      · exact hu ▸ ownedByHolder_recordNftCustody holds newer
      · exact (howned u).recordNftCustody_ne hu holds
  · rw [heq]
    exact .refl L

theorem custodyOf_recordNftCustody_le (L : EngineLedger F) (t x : Hex) (index : Int)
    (holds : Bool) :
    ∃ c, (L.recordNftCustody t x index holds).custodyOf t x = some c ∧ index ≤ c.index := by
  rcases recordNftCustody_cases L t x index holds with newer | ⟨⟨word, hword, hle⟩, heq⟩
  · rw [custodyOf_recordNftCustody holds newer]
    exact ⟨_, if_pos ⟨rfl, rfl⟩, Int.le_refl _⟩
  · rw [heq]
    exact ⟨word, hword, hle⟩

end Words

/-! ## The token blocks -/

section Tokens

variable (L : EngineLedger F) {b : Block F}

theorem keepsMarks_set_info (token : Hex) (info : NftInfo) :
    KeepsMarks L { L with nftInfo := L.nftInfo.set token info } :=
  ⟨fun _ h => h, fun t h => by simp [JsMap.has_set, h], fun _ h => h,
    fun _ _ c h => ⟨c, h, Int.le_refl _⟩, fun h t => (h t).congr rfl rfl fun _ => rfl⟩

theorem keepsMarks_applyNftMint (htype : b.type = .nftMint) : KeepsMarks L (L.applyNftMint b) := by
  rcases applyNftMint_cases L htype with ⟨-, h⟩ | ⟨token, content, -, -, h⟩
  · rw [h]
    exact .refl L
  · rw [h]
    exact (keepsMarks_set_info L token _).trans
      (keepsMarks_recordNftCustody _ token b.accountId b.index true)

theorem keepsMarks_applyNftSend (htype : b.type = .nftSend) : KeepsMarks L (L.applyNftSend b) := by
  rcases applyNftSend_cases L htype with ⟨-, h⟩ | ⟨token, offers, -, h⟩
  · rw [h]
    exact .refl L
  · rw [h]
    exact (keepsMarks_recordNftCustody L token b.accountId b.index false).trans
      (keepsMarks_of_eq rfl rfl rfl rfl rfl)

theorem keepsMarks_applyNftReceive (htype : b.type = .nftReceive) :
    KeepsMarks L (L.applyNftReceive b) := by
  rcases applyNftReceive_cases L htype with ⟨-, h⟩ | ⟨token, -, h⟩
  · rw [h]
    exact .refl L
  · rw [h]
    have hclaims : KeepsMarks L (L.claimNftTransfer b.sourceHash) := by
      obtain ⟨claimed, offers, hclaim, -, hclaimed⟩ := claimNftTransfer_eq L b.sourceHash
      rw [hclaim]
      exact ⟨fun hash h => (hclaimed hash).mpr (.inl h), fun _ h => h, fun _ h => h,
        fun _ _ c h => ⟨c, h, Int.le_refl _⟩, fun h t => (h t).congr rfl rfl fun _ => rfl⟩
    exact hclaims.trans (keepsMarks_recordNftCustody _ token b.accountId b.index true)

theorem keepsMarks_applyNftBurn (htype : b.type = .nftBurn) : KeepsMarks L (L.applyNftBurn b) := by
  rcases applyNftBurn_cases L htype with ⟨-, h⟩ | ⟨token, -, h⟩
  · rw [h]
    exact .refl L
  · rw [h]
    have hrecord := keepsMarks_recordNftCustody
      { L with burnedNfts := JsSet.add L.burnedNfts token } token b.accountId b.index false
    refine ⟨fun hash h => hrecord.claimed hash h, fun t h => hrecord.info t h,
      fun t h => hrecord.burned t (JsSet.has_add_of_has token h),
      fun t x c h => hrecord.custody t x c h, fun howned t => ?_⟩
    by_cases ht : token = t
    · subst ht
      -- a token that is burned has no owner, whoever held it
      have hburned := hrecord.burned token (by rw [JsSet.has_add]; simp)
      refine ⟨fun _ => JsMap.get?_delete_self .., fun owner ho => ?_, fun hnot => ?_⟩
      · rw [JsMap.get?_delete_self] at ho
        cases ho
      · exact absurd (hburned.symm.trans hnot) (by decide)
    · have hadded : OwnedByHolder { L with burnedNfts := JsSet.add L.burnedNfts token } t :=
        (howned t).congr (by rw [JsSet.has_add]; simp [ht]) rfl fun _ => rfl
      exact (hadded.recordNftCustody_ne ht false).congr rfl
        ((JsMap.get?_delete ..).trans (if_neg ht)) fun _ => rfl

theorem marked_applyNftMint (htype : b.type = .nftMint) : Marked (L.applyNftMint b) b := by
  rcases applyNftMint_cases L htype with ⟨hnone, -⟩ | ⟨token, content, hword, -, h⟩
  · exact marked_of_silent hnone fun hother => by rw [htype] at hother; cases hother
  · rw [h]
    refine ⟨fun t holds ht => ?_, fun hother => ?_, fun _ t hnames => ?_, fun hother => ?_⟩
    · obtain rfl : t = token := Option.some.inj
        ((wordOn_eq_some.mp ht).1.symm.trans (wordOn_eq_some.mp hword).1)
      exact custodyOf_recordNftCustody_le ..
    · rw [htype] at hother
      cases hother
    · obtain rfl : t = token := Option.some.inj
        ((tokenId_of_names hnames).1.symm.trans (wordOn_eq_some.mp hword).1)
      rw [nftInfo_recordNftCustody]
      simp [JsMap.has_set]
    · rw [htype] at hother
      cases hother

theorem marked_applyNftSend (htype : b.type = .nftSend) : Marked (L.applyNftSend b) b := by
  rcases applyNftSend_cases L htype with ⟨hnone, -⟩ | ⟨token, offers, hword, h⟩
  · exact marked_of_silent hnone fun hother => by rw [htype] at hother; cases hother
  · rw [h]
    refine ⟨fun t holds ht => ?_, fun hother => ?_, fun hother => ?_, fun hother => ?_⟩
    · obtain rfl : t = token := Option.some.inj
        ((wordOn_eq_some.mp ht).1.symm.trans (wordOn_eq_some.mp hword).1)
      exact custodyOf_recordNftCustody_le ..
    all_goals
      rw [htype] at hother
      cases hother

theorem marked_applyNftReceive (htype : b.type = .nftReceive) :
    Marked (L.applyNftReceive b) b := by
  refine ⟨fun t holds ht => ?_, fun _ htoken source hsource hne => ?_, fun hother => ?_,
    fun hother => ?_⟩
  · rcases applyNftReceive_cases L htype with ⟨hnone, -⟩ | ⟨token, hword, h⟩
    · rw [hnone t] at ht
      cases ht
    · obtain rfl : t = token := Option.some.inj
        ((wordOn_eq_some.mp ht).1.symm.trans (wordOn_eq_some.mp hword).1)
      rw [h]
      exact custodyOf_recordNftCustody_le ..
  · exact (applyNftReceive_claimEffect L htype).claimsNft htype htoken source hsource hne
  all_goals
    rw [htype] at hother
    cases hother

theorem marked_applyNftBurn (htype : b.type = .nftBurn) : Marked (L.applyNftBurn b) b := by
  rcases applyNftBurn_cases L htype with ⟨hnone, -⟩ | ⟨token, hword, h⟩
  · exact marked_of_silent hnone fun hother => by rw [htype] at hother; cases hother
  · rw [h]
    refine ⟨fun t holds ht => ?_, fun hother => ?_, fun hother => ?_, fun _ t hnames => ?_⟩
    · obtain rfl : t = token := Option.some.inj
        ((wordOn_eq_some.mp ht).1.symm.trans (wordOn_eq_some.mp hword).1)
      exact custodyOf_recordNftCustody_le
        { L with burnedNfts := JsSet.add L.burnedNfts t } t b.accountId b.index false
    · rw [htype] at hother
      cases hother
    · rw [htype] at hother
      cases hother
    · obtain rfl : t = token := Option.some.inj
        ((tokenId_of_names hnames).1.symm.trans (wordOn_eq_some.mp hword).1)
      have hsame := burnedNfts_recordNftCustody
        { L with burnedNfts := JsSet.add L.burnedNfts t } t b.accountId b.index false
      exact (congrArg (fun s : JsSet Hex => s.has t) hsame).trans (JsSet.has_add_self _ _)

end Tokens

/-! ## Every block -/

section Blocks

variable [JsNumber F] {P : Primitives F} {L : EngineLedger F}

theorem keepsMarks_applyBlock (L : EngineLedger F) (b : Block F) :
    KeepsMarks L (applyBlock P L b) := by
  unfold applyBlock
  cases htype : b.type
  case nftMint => exact keepsMarks_applyNftMint L htype
  case nftSend => exact keepsMarks_applyNftSend L htype
  case nftReceive => exact keepsMarks_applyNftReceive L htype
  case nftBurn => exact keepsMarks_applyNftBurn L htype
  case send =>
    obtain ⟨_, h, -⟩ := applySend_eq L b
    exact keepsMarks_of_eq (by simp [h]) (by simp [h]) (by simp [h]) (by simp [h]) (by simp [h])
  case receive =>
    obtain ⟨_, _, h, -⟩ := applyReceive_eq L b
    exact keepsMarks_of_eq (by simp [h]) (by simp [h]) (by simp [h]) (by simp [h]) (by simp [h])
  case update =>
    obtain ⟨_, _, h⟩ := applyUpdate_eq L b
    exact keepsMarks_of_eq (by simp [h]) (by simp [h]) (by simp [h]) (by simp [h]) (by simp [h])
  all_goals exact keepsMarks_of_eq rfl rfl rfl rfl rfl

theorem marked_applyBlock (L : EngineLedger F) (b : Block F) : Marked (applyBlock P L b) b := by
  unfold applyBlock
  cases htype : b.type
  case nftMint => exact marked_applyNftMint L htype
  case nftSend => exact marked_applyNftSend L htype
  case nftReceive => exact marked_applyNftReceive L htype
  case nftBurn => exact marked_applyNftBurn L htype
  all_goals exact marked_of_said (by simp [said, htype])

/-- The effect of a draft. -/
theorem Draft.marks {pub priv : Hex} {head : Block F} {now : Int} {c : Call F}
    {content : BlockContent F} {effect : Effect F}
    (d : Draft P L pub priv head now c content effect) (L' : EngineLedger F) {b : Block F}
    (hb : b.toBlockContent = content) :
    KeepsMarks L' (effect L' b) ∧ Marked (effect L' b) b := by
  have hplain : ∀ t, content.type = t → (t ≠ .nftMint ∧ t ≠ .nftSend ∧ t ≠ .nftReceive ∧
      t ≠ .nftBurn) → Marked (effect L' b) b := by
    intro t htype hne
    refine marked_of_said ?_
    have hbtype : b.type = t := by rw [hb, htype]
    unfold said
    rw [hbtype]
    cases t <;> simp_all
  cases d
  case send => exact ⟨keepsMarks_of_eq rfl rfl rfl rfl rfl, hplain .send rfl (by simp)⟩
  case receive => exact ⟨keepsMarks_of_eq rfl rfl rfl rfl rfl, hplain .receive rfl (by simp)⟩
  case update updates _ _ =>
    obtain ⟨_, _, h⟩ := applyAccountUpdate_eq L' pub updates
    exact ⟨keepsMarks_of_eq (by simp [h]) (by simp [h]) (by simp [h]) (by simp [h]) (by simp [h]),
      hplain .update rfl (by simp)⟩
  case nftMint =>
    have htype : b.type = .nftMint := by rw [hb]; rfl
    exact ⟨keepsMarks_applyNftMint L' htype, marked_applyNftMint L' htype⟩
  case nftSend =>
    have htype : b.type = .nftSend := by rw [hb]; rfl
    exact ⟨keepsMarks_applyNftSend L' htype, marked_applyNftSend L' htype⟩
  case nftReceive =>
    have htype : b.type = .nftReceive := by rw [hb]; rfl
    exact ⟨keepsMarks_applyNftReceive L' htype, marked_applyNftReceive L' htype⟩
  case nftBurn =>
    have htype : b.type = .nftBurn := by rw [hb]; rfl
    exact ⟨keepsMarks_applyNftBurn L' htype, marked_applyNftBurn L' htype⟩
  case storageRegister =>
    exact ⟨keepsMarks_of_eq rfl rfl rfl rfl rfl, hplain .storageRegister rfl (by simp)⟩
  case storageDeregister =>
    exact ⟨keepsMarks_of_eq rfl rfl rfl rfl rfl, hplain .storageDeregister rfl (by simp)⟩
  case storageSettle =>
    exact ⟨keepsMarks_of_eq rfl rfl rfl rfl rfl, hplain .storageSettle rfl (by simp)⟩

theorem keepsMarks_appendForeign (L : EngineLedger F) (h : Held F) (acc : AccountAccumulator)
    (b : Block F) (now : Int) : KeepsMarks L (appendForeign P L h acc b now) := by
  have heffect := keepsMarks_applyBlock (P := P) (L.hold b.accountId ⟨h.chain ++ [b], acc⟩) b
  exact ((keepsMarks_hold L _ _).trans heffect).trans (keepsMarks_of_eq rfl rfl rfl rfl rfl)

theorem marked_appendForeign (L : EngineLedger F) (h : Held F) (acc : AccountAccumulator)
    (b : Block F) (now : Int) : Marked (appendForeign P L h acc b now) b := by
  have heffect := marked_applyBlock (P := P) (L.hold b.accountId ⟨h.chain ++ [b], acc⟩) b
  exact ⟨heffect.custody, heffect.claimed, heffect.minted, heffect.burned⟩

/-! ## A block that comes again -/

omit [JsNumber F] in
theorem sameTokens_claimNftTransfer (L : EngineLedger F) {source : Option Hex}
    (hclaimed : ∀ hash, source = some hash → hash ≠ "" →
      L.claimedNftTransfers.has hash = true) : SameTokens L (L.claimNftTransfer source) := by
  obtain ⟨claimed, offers, heq, -, hhas⟩ := claimNftTransfer_eq L source
  rw [heq]
  refine ⟨rfl, rfl, rfl, rfl, fun hash => ?_⟩
  rw [Bool.eq_iff_iff, hhas]
  exact or_iff_left_of_imp fun h => hclaimed hash h.1 h.2

omit [JsNumber F] in
theorem Marked.recordNftCustody_eq_self {b : Block F} (h : Marked L b) {t : Hex} {holds : Bool}
    (hword : wordOn t b = some holds) : L.recordNftCustody t b.accountId b.index holds = L := by
  obtain ⟨c, hc, hle⟩ := h.custody t holds hword
  rcases recordNftCustody_cases L t b.accountId b.index holds with newer | ⟨-, heq⟩
  · have := newer c hc
    omega
  · exact heq

/-- A marked block writes nothing into the token records, when it is neither a mint nor a
burn. -/
theorem Marked.sameTokens_applyBlock {b : Block F} (h : Marked L b)
    (hmint : b.type ≠ .nftMint) (hburn : b.type ≠ .nftBurn) :
    SameTokens L (applyBlock P L b) := by
  unfold applyBlock
  cases htype : b.type
  case nftMint => exact absurd htype hmint
  case nftBurn => exact absurd htype hburn
  case nftSend =>
    rcases applyNftSend_cases L htype with ⟨-, heq⟩ | ⟨token, offers, hword, heq⟩
    · simp only [heq]
      exact .refl L
    · simp only [heq, h.recordNftCustody_eq_self hword]
      exact ⟨rfl, rfl, rfl, rfl, fun _ => rfl⟩
  case nftReceive =>
    rcases applyNftReceive_cases L htype with ⟨-, heq⟩ | ⟨token, hword, heq⟩
    · simp only [heq]
      exact .refl L
    · obtain ⟨htoken, hne, -⟩ := wordOn_eq_some.mp hword
      have hclaim := sameTokens_claimNftTransfer L
        (h.claimed htype (by simp [truthy, htoken, hne]))
      have hstays := (h.keeps hclaim.keepsMarks).recordNftCustody_eq_self hword
      simp only [heq, hstays]
      exact hclaim
  case send =>
    obtain ⟨_, heq, -⟩ := applySend_eq L b
    simp only [heq]
    exact ⟨rfl, rfl, rfl, rfl, fun _ => rfl⟩
  case receive =>
    obtain ⟨_, _, heq, -⟩ := applyReceive_eq L b
    simp only [heq]
    exact ⟨rfl, rfl, rfl, rfl, fun _ => rfl⟩
  case update =>
    obtain ⟨_, _, heq⟩ := applyUpdate_eq L b
    simp only [heq]
    exact ⟨rfl, rfl, rfl, rfl, fun _ => rfl⟩
  all_goals exact ⟨rfl, rfl, rfl, rfl, fun _ => rfl⟩

theorem Marked.sameTokens_appendForeign {b : Block F} (h : Marked L b)
    (hmint : b.type ≠ .nftMint) (hburn : b.type ≠ .nftBurn) (stored : Held F)
    (acc : AccountAccumulator) (now : Int) :
    SameTokens L (appendForeign P L stored acc b now) := by
  have hold : Marked (L.hold b.accountId ⟨stored.chain ++ [b], acc⟩) b :=
    ⟨h.custody, h.claimed, h.minted, h.burned⟩
  have heffect := hold.sameTokens_applyBlock (P := P) hmint hburn
  exact ⟨heffect.owner, heffect.custody, heffect.info, heffect.burned, heffect.claimed⟩

end Blocks

end NeuronWeb.EngineLedger
