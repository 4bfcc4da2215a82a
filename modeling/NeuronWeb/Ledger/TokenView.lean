/-
  Ledger/TokenView: what the ledger has on record about one token.

  The custody records of a token and its owner form its view. A word that an account gives up a
  token, recorded early, swallows the earlier words of that account and is swallowed by itself,
  so it does not matter when it is recorded.
-/
import NeuronWeb.Ledger.Custody

set_option autoImplicit false

namespace NeuronWeb.EngineLedger

variable {F : Type}

/-! ## Views -/

/-- The custody records of one token and its owner. -/
structure TokenView where
  custody : Option (JsMap Hex NftCustody)
  owner : Option Hex

def tokenView (L : EngineLedger F) (tokenId : Hex) : TokenView :=
  ⟨L.nftCustody.get? tokenId, L.nftOwner.get? tokenId⟩

/-- The owner that is derived for a token with these holders. -/
def derivedOwner (burned : Bool) (holders : List Hex) (current : Option Hex) : Option Hex :=
  if burned then none
  else
    match current with
    | some owner => if owner ≠ "" ∧ owner ∈ holders then some owner else holders.getLast?
    | none => holders.getLast?

/-- The custody records of the view, none before the first word. -/
def TokenView.perAccount (v : TokenView) : JsMap Hex NftCustody := v.custody.getD JsMap.empty

/-- The view after a word of an account on the token. -/
def TokenView.record (v : TokenView) (burned : Bool) (accountId : Hex) (index : Int)
    (holds : Bool) : TokenView :=
  if supersedes v.perAccount accountId index then
    let perAccount := v.perAccount.set accountId ⟨index, holds⟩
    ⟨some perAccount, derivedOwner burned (holders perAccount) v.owner⟩
  else v

theorem nftOwner_recomputeNftOwner {L : EngineLedger F} {tokenId : Hex}
    {perAccount : JsMap Hex NftCustody} (h : L.nftCustody.get? tokenId = some perAccount) :
    (L.recomputeNftOwner tokenId).nftOwner.get? tokenId =
      derivedOwner (L.burnedNfts.has tokenId) (holders perAccount) (L.nftOwner.get? tokenId) := by
  unfold recomputeNftOwner derivedOwner
  cases hburned : L.burnedNfts.has tokenId with
  | true => simp
  | false =>
    simp only [Bool.false_eq_true, if_false, h]
    cases hholders : holders perAccount with
    | nil => cases L.nftOwner.get? tokenId <;> simp
    | cons first rest =>
      cases rest with
      | nil =>
        cases hcurrent : L.nftOwner.get? tokenId with
        | none => simp
        | some current =>
          simp only [List.mem_singleton, JsMap.get?_set_self, List.getLast?_singleton]
          split
          · rename_i hkept
            rw [hkept.2]
          · rfl
      | cons next rest =>
        cases hcurrent : L.nftOwner.get? tokenId with
        | none => simp [List.getLast?_eq_some_getLast]
        | some current =>
          simp only
          by_cases hkept : current = "" ∨ current ∉ first :: next :: rest
          · rw [if_pos hkept, if_neg (by tauto)]
            simp [List.getLast?_eq_some_getLast]
          · rw [if_neg hkept, if_pos (by tauto), hcurrent]

theorem nftCustody_recomputeNftOwner (L : EngineLedger F) (tokenId : Hex) :
    (L.recomputeNftOwner tokenId).nftCustody = L.nftCustody := by
  obtain ⟨nftOwner, h⟩ := recomputeNftOwner_eq L tokenId
  rw [h]

theorem tokenView_recordNftCustody (L : EngineLedger F) (tokenId x : Hex) (index : Int)
    (holds : Bool) : (L.recordNftCustody tokenId x index holds).tokenView tokenId =
      (L.tokenView tokenId).record (L.burnedNfts.has tokenId) x index holds := by
  have hper : (L.tokenView tokenId).perAccount =
      (L.nftCustody.get? tokenId).getD JsMap.empty := rfl
  unfold recordNftCustody TokenView.record
  simp only [hper]
  split
  · generalize ((L.nftCustody.get? tokenId).getD JsMap.empty).set x ⟨index, holds⟩ = perAccount
    have hget : (L.nftCustody.set tokenId perAccount).get? tokenId = some perAccount := by simp
    unfold tokenView
    rw [nftOwner_recomputeNftOwner hget, nftCustody_recomputeNftOwner]
    simp only [hget]
  · rfl

theorem tokenView_recordNftCustody_ne (L : EngineLedger F) {tokenId other : Hex} (x : Hex)
    (index : Int) (holds : Bool) (h : tokenId ≠ other) :
    (L.recordNftCustody tokenId x index holds).tokenView other = L.tokenView other := by
  unfold tokenView
  rw [nftOwner_recordNftCustody_ne holds h]
  congr 1
  unfold recordNftCustody
  simp only
  split
  · rw [nftCustody_recomputeNftOwner, JsMap.get?_set_ne _ _ h]
  · rfl

/-! ## Words that come early -/

theorem holders_set_false (perAccount : JsMap Hex NftCustody) (x : Hex) (index : Int) :
    holders (perAccount.set x ⟨index, false⟩) =
      (holders perAccount).filter fun holder => holder ≠ x := by
  obtain ⟨l, nodup⟩ := perAccount
  unfold holders JsMap.set
  simp only
  induction l with
  | nil => simp [JsMap.insert]
  | cons e rest ih =>
    obtain ⟨y, word⟩ := e
    simp only [List.map_cons, List.nodup_cons] at nodup
    by_cases hy : y = x
    · subst hy
      -- the other entries belong to other accounts
      have hothers : ∀ z ∈ (rest.filter fun e => e.2.holds).map Prod.fst, z ≠ y := by
        intro z hz
        rintro rfl
        obtain ⟨e, he, rfl⟩ := List.mem_map.mp hz
        exact nodup.1 (List.mem_map_of_mem (List.mem_filter.mp he).1)
      have hkept : ((rest.filter fun e => e.2.holds).map Prod.fst).filter
          (fun holder => holder ≠ y) = (rest.filter fun e => e.2.holds).map Prod.fst := by
        rw [List.filter_eq_self]
        intro z hz
        simpa using hothers z hz
      cases hword : word.holds
      · simpa [JsMap.insert, hword] using hkept.symm
      · simpa [JsMap.insert, hword] using hkept.symm
    · cases hword : word.holds <;> simp [JsMap.insert, hy, hword, ih nodup.2]

theorem derivedOwner_of_kept {all : List Hex} {owner : Hex} (hne : owner ≠ "")
    (hmem : owner ∈ all) : derivedOwner false all (some owner) = some owner := by
  simp [derivedOwner, hne, hmem]

theorem derivedOwner_of_not_kept {all : List Hex} {current : Option Hex}
    (h : ∀ owner, current = some owner → owner ≠ "" → owner ∉ all) :
    derivedOwner false all current = all.getLast? := by
  unfold derivedOwner
  cases current with
  | none => rfl
  | some owner =>
    simp only [Bool.false_eq_true, if_false]
    rw [if_neg]
    rintro ⟨hne, hmem⟩
    exact h owner rfl hne hmem

theorem derivedOwner_filter_getLast? (x : Hex) (all : List Hex) :
    derivedOwner false (all.filter fun holder => holder ≠ x) all.getLast? =
      (all.filter fun holder => holder ≠ x).getLast? := by
  induction all using List.reverseRecOn with
  | nil => rfl
  | append_singleton front last _ =>
    rw [List.getLast?_concat, List.filter_append]
    by_cases hlast : last = x
    · rw [List.filter_cons_of_neg (by simpa using hlast), List.filter_nil, List.append_nil]
      apply derivedOwner_of_not_kept
      intro owner howner _ hmem
      cases howner
      have hne : last ≠ x := by simpa using (List.mem_filter.mp hmem).2
      exact hne hlast
    · rw [List.filter_cons_of_pos (by simpa using hlast), List.filter_nil,
        List.getLast?_concat]
      by_cases hempty : last = ""
      · rw [derivedOwner_of_not_kept, List.getLast?_concat]
        intro owner howner hne
        cases howner
        exact absurd hempty hne
      · exact derivedOwner_of_kept hempty (by simp)

theorem derivedOwner_filter (burned : Bool) (x : Hex) (all : List Hex) (current : Option Hex) :
    derivedOwner burned (all.filter fun holder => holder ≠ x) (derivedOwner burned all current) =
      derivedOwner burned (all.filter fun holder => holder ≠ x) current := by
  cases burned with
  | true => rfl
  | false =>
    by_cases hkept : ∃ owner, current = some owner ∧ owner ≠ "" ∧ owner ∈ all
    · obtain ⟨owner, rfl, hne, hmem⟩ := hkept
      rw [derivedOwner_of_kept hne hmem]
    · have hnot : ∀ owner, current = some owner → owner ≠ "" → owner ∉ all :=
        fun owner howner hne hmem => hkept ⟨owner, howner, hne, hmem⟩
      have hnot' : ∀ owner, current = some owner → owner ≠ "" →
          owner ∉ all.filter fun holder => holder ≠ x :=
        fun owner howner hne hmem => hnot owner howner hne (List.mem_filter.mp hmem).1
      rw [derivedOwner_of_not_kept hnot, derivedOwner_of_not_kept hnot',
        derivedOwner_filter_getLast?]

theorem supersedes_set_self (perAccount : JsMap Hex NftCustody) (x : Hex) (word : NftCustody)
    (index : Int) : supersedes (perAccount.set x word) x index = decide (word.index < index) := by
  simp [supersedes]

theorem supersedes_of_le {perAccount : JsMap Hex NftCustody} {x : Hex} {i j : Int} (hij : i ≤ j)
    (h : supersedes perAccount x i = true) : supersedes perAccount x j = true := by
  unfold supersedes at *
  split
  · rename_i word hword
    rw [hword] at h
    have hlt : word.index < i := of_decide_eq_true h
    exact decide_eq_true (by omega)
  · rfl

namespace TokenView

variable (v : TokenView) (burned burned' holds holds' : Bool) (x : Hex) {i j : Int}

theorem record_of_supersedes (h : supersedes v.perAccount x i = true) :
    v.record burned x i holds =
      ⟨some (v.perAccount.set x ⟨i, holds⟩),
        derivedOwner burned (holders (v.perAccount.set x ⟨i, holds⟩)) v.owner⟩ := by
  simp [record, h]

theorem record_of_not_supersedes (h : supersedes v.perAccount x i = false) :
    v.record burned x i holds = v := by
  simp [record, h]

theorem record_of_le (hij : i ≤ j) :
    (v.record burned x j holds).record burned' x i holds' = v.record burned x j holds := by
  apply record_of_not_supersedes
  by_cases h : supersedes v.perAccount x j = true
  · rw [record_of_supersedes _ _ _ _ h]
    exact (supersedes_set_self v.perAccount x ⟨j, holds⟩ i).trans (decide_eq_false (by simpa))
  · rw [Bool.not_eq_true] at h
    rw [record_of_not_supersedes _ _ _ _ h]
    cases hi : supersedes v.perAccount x i with
    | false => rfl
    | true =>
      rw [supersedes_of_le hij hi] at h
      cases h

theorem record_false_of_lt (hij : i < j) :
    (v.record burned x i holds).record burned x j false = v.record burned x j false := by
  cases h : supersedes v.perAccount x i with
  | false => rw [record_of_not_supersedes _ _ _ _ h]
  | true =>
    have hj : supersedes v.perAccount x j = true := supersedes_of_le (le_of_lt hij) h
    rw [record_of_supersedes _ _ _ _ h, record_of_supersedes _ _ _ _ hj]
    rw [record_of_supersedes]
    · simp only [perAccount, Option.getD_some, JsMap.set_set, mk.injEq, true_and]
      have hstruck : ∀ w : NftCustody, holders (v.perAccount.set x ⟨j, false⟩) =
          (holders (v.perAccount.set x w)).filter fun holder => holder ≠ x := by
        intro w
        rw [← holders_set_false _ x j, JsMap.set_set]
      unfold perAccount at hstruck
      rw [hstruck ⟨i, holds⟩, derivedOwner_filter]
    · exact (supersedes_set_self v.perAccount x ⟨i, holds⟩ j).trans (decide_eq_true hij)

end TokenView

/-! ## The effect of a block -/

/-- The view of a token after a block. -/
def TokenView.after (v : TokenView) (burned : Bool) (tokenId : Hex) (b : Block F) : TokenView :=
  match wordOn tokenId b with
  | none => v
  | some holds =>
    if b.type = .nftBurn then ⟨(v.record true b.accountId b.index holds).custody, none⟩
    else v.record burned b.accountId b.index holds

section After

variable {L L₀ : EngineLedger F} {b : Block F} {tokenId : Hex} {holds : Bool}

theorem TokenView.after_of_silent (v : TokenView) (burned : Bool)
    (h : wordOn tokenId b = none) : v.after burned tokenId b = v := by
  simp [TokenView.after, h]

theorem tokenView_of_silent {L' : EngineLedger F} (hword : ∀ t, wordOn t b = none)
    (hcustody : L'.nftCustody = L.nftCustody) (howner : L'.nftOwner = L.nftOwner) (t : Hex) :
    L'.tokenView t = (L.tokenView t).after (L.burnedNfts.has t) t b := by
  rw [TokenView.after_of_silent _ _ (hword t)]
  simp [tokenView, hcustody, howner]

theorem tokenView_of_word (hword : wordOn tokenId b = some holds) (htype : b.type ≠ .nftBurn)
    (hview : ∀ t, L₀.tokenView t = L.tokenView t) (hburned : L₀.burnedNfts = L.burnedNfts)
    (t : Hex) : (L₀.recordNftCustody tokenId b.accountId b.index holds).tokenView t =
      (L.tokenView t).after (L.burnedNfts.has t) t b := by
  by_cases ht : tokenId = t
  · subst ht
    rw [tokenView_recordNftCustody, hview, hburned]
    simp [TokenView.after, hword, htype]
  · rw [tokenView_recordNftCustody_ne _ _ _ _ ht, hview,
      TokenView.after_of_silent _ _ (wordOn_ne (wordOn_eq_some.mp hword).1 ht)]

theorem tokenView_applyNftBurn (htype : b.type = .nftBurn) (t : Hex) :
    (L.applyNftBurn b).tokenView t = (L.tokenView t).after (L.burnedNfts.has t) t b := by
  rcases applyNftBurn_cases L htype with ⟨hnone, h⟩ | ⟨token, hword, h⟩
  · rw [h]
    exact tokenView_of_silent hnone rfl rfl t
  · rw [h]
    by_cases ht : token = t
    · subst ht
      have hrecord := tokenView_recordNftCustody
        { L with burnedNfts := JsSet.add L.burnedNfts token } token b.accountId b.index false
      simp only [JsSet.has_add_self] at hrecord
      have hcustody := congrArg TokenView.custody hrecord
      simp only [TokenView.after, hword, htype, if_true, tokenView, JsMap.get?_delete_self]
      simp only [tokenView] at hcustody
      rw [hcustody]
    · have hrecord := tokenView_recordNftCustody_ne
        { L with burnedNfts := JsSet.add L.burnedNfts token } b.accountId b.index false ht
      rw [TokenView.after_of_silent _ _ (wordOn_ne (wordOn_eq_some.mp hword).1 ht)]
      simp only [tokenView, TokenView.mk.injEq, JsMap.get?_delete, if_neg ht] at hrecord ⊢
      exact hrecord

/-- What a foreign block does to the view of a token. -/
theorem tokenView_applyBlock [JsNumber F] (P : Primitives F) (L : EngineLedger F) (b : Block F)
    (t : Hex) : (applyBlock P L b).tokenView t =
      (L.tokenView t).after (L.burnedNfts.has t) t b := by
  unfold applyBlock
  cases htype : b.type
  case nftMint =>
    rcases applyNftMint_cases L htype with ⟨hnone, h⟩ | ⟨token, content, hword, _, h⟩
    · simp only [h]
      exact tokenView_of_silent hnone rfl rfl t
    · simp only [h]
      exact tokenView_of_word hword (by simp [htype]) (fun _ => rfl) rfl t
  case nftSend =>
    rcases applyNftSend_cases L htype with ⟨hnone, h⟩ | ⟨token, offers, hword, h⟩
    · simp only [h]
      exact tokenView_of_silent hnone rfl rfl t
    · simp only [h]
      exact tokenView_of_word (L := L) hword (by simp [htype]) (fun _ => rfl) rfl t
  case nftReceive =>
    rcases applyNftReceive_cases L htype with ⟨hnone, h⟩ | ⟨token, hword, h⟩
    · simp only [h]
      exact tokenView_of_silent hnone rfl rfl t
    · simp only [h]
      obtain ⟨claimed, offers, hclaim, _⟩ := claimNftTransfer_eq L b.sourceHash
      rw [hclaim]
      exact tokenView_of_word hword (by simp [htype]) (fun _ => rfl) rfl t
  case nftBurn => exact tokenView_applyNftBurn htype t
  case send =>
    obtain ⟨_, h, _⟩ := applySend_eq L b
    exact tokenView_of_silent (wordOn_of_said (by simp [said, htype])) (by simp [h])
      (by simp [h]) t
  case receive =>
    obtain ⟨_, _, h, _⟩ := applyReceive_eq L b
    exact tokenView_of_silent (wordOn_of_said (by simp [said, htype])) (by simp [h])
      (by simp [h]) t
  case update =>
    obtain ⟨_, _, h⟩ := applyUpdate_eq L b
    exact tokenView_of_silent (wordOn_of_said (by simp [said, htype])) (by simp [h])
      (by simp [h]) t
  all_goals exact tokenView_of_silent (wordOn_of_said (by simp [said, htype])) rfl rfl t

end After

end NeuronWeb.EngineLedger
