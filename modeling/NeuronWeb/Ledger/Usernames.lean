/-
  Ledger/Usernames: which account a username leads to.

  The ledger keeps the accounts by public key and an index from usernames to public keys. The
  index mirrors the accounts as long as nobody takes a name that another account has, and
  exactly then no payment that is addressed by name goes astray.
-/
import NeuronWeb.Foundation.ReverseIndex
import NeuronWeb.Ledger.FailedCreates

set_option autoImplicit false

namespace NeuronWeb.EngineLedger

open ReverseIndex

variable {F : Type}

def getAccountByUsername (L : EngineLedger F) (username : String) : Option LedgerAccount :=
  match L.usernameToPub.get? username with
  | some pub => if pub = "" then none else L.accountsByPub.get? pub
  | none => none

/-! ## Routes -/

/-- Every entry of the username index refers to a known account that has the name. -/
def SoundIndex (L : EngineLedger F) : Prop :=
  ∀ username pub, L.usernameToPub.get? username = some pub →
    ∃ account, L.accountsByPub.get? pub = some account ∧ account.username = username

/-- What the usernames of all accounts but `actor` resolve to is the same afterwards. -/
def KeepsRoutes (L : EngineLedger F) (actor : Hex) (L' : EngineLedger F) : Prop :=
  ∀ pub account, pub ≠ actor → L.accountsByPub.get? pub = some account →
    L'.resolveToPublicKey account.username = L.resolveToPublicKey account.username ∧
    L'.getAccountByUsername account.username = L.getAccountByUsername account.username

/-- The account that a call registers or updates. -/
def Call.actor : Call F → Option Hex
  | .registerAccount account => some account.pub
  | .updateAccountFields pub _ => some pub
  | .createUpdate pub _ _ _ => some pub
  | .addBlock block _ => some block.accountId
  | _ => none

/-- What is asked of a call: the index it leaves is sound, and it keeps the routes of the
accounts it is not about. -/
structure Routed (L : EngineLedger F) (c : Call F) (L' : EngineLedger F) : Prop where
  sound : L'.SoundIndex
  kept : ∀ actor, c.actor = some actor → KeepsRoutes L actor L'

/-! ## Contested names -/

section Condition

variable [JsNumber F] (P : Primitives F) (L : EngineLedger F)

/-- The call passes its guards and gives the account `pub` a username. -/
inductive Renames : Call F → Hex → String → Prop
  | fields (pub : Hex) (username : String) :
      Renames (.updateAccountFields pub (some username)) pub username
  | created (pub priv : Hex) (updates : List (String × String)) (now : Int) (username : String)
      (h : Held F) (head : Block F) (stored : L.held.get? pub = some h)
      (last : h.chain.getLast? = some head) (notFrozen : L.equivocated.has pub = false)
      (signable : Signable P
        { nextContent head pub .update now head.balance with updates := some updates } priv h.acc)
      (named : JsMap.find "username" updates = some username) :
      Renames (.createUpdate pub updates priv now) pub username
  | received (block : Block F) (now : Int) (updates : List (String × String)) (username : String)
      (h : Held F) (head : Block F) (acc : AccountAccumulator) (authentic : Authentic P L block)
      (links : Links L h head block) (checked : checkBlock P L head block = none)
      (root : RootMatches P h block acc) (type : block.type = .update)
      (carried : block.updates = some updates)
      (named : JsMap.find "username" updates = some username) :
      Renames (.addBlock block now) block.accountId username

/-- No known account but `pub` has the name. -/
def FreeName (pub : Hex) (username : String) : Prop :=
  ∀ other account, L.accountsByPub.get? other = some account → account.username = username →
    other = pub

/-- The call takes no name from another account. -/
structure Uncontested (c : Call F) : Prop where
  /-- A new account brings a name that is free, and its public key is nobody's name. -/
  registers : ∀ account, c = .registerAccount account →
    L.accountsByPub.get? account.pub = none →
    (account.username ≠ "" → L.FreeName account.pub account.username) ∧
      ∀ other known, L.accountsByPub.get? other = some known → known.username ≠ account.pub
  /-- A known account is renamed to a name that is free. -/
  renames : ∀ pub username account, Renames P L c pub username →
    L.accountsByPub.get? pub = some account → username ≠ "" → L.FreeName pub username
  /-- No account loses its name. -/
  keeps : ∀ pub account, c = .updateAccountFields pub (some "") →
    L.accountsByPub.get? pub = some account → account.username = ""

end Condition

/-! ## What a call does to the two maps -/

/-- A call that leaves the accounts and the index alone. -/
structure SameDirectory (L L' : EngineLedger F) : Prop where
  accountsByPub : L'.accountsByPub = L.accountsByPub
  usernameToPub : L'.usernameToPub = L.usernameToPub

theorem SameDirectory.refl (L : EngineLedger F) : SameDirectory L L := ⟨rfl, rfl⟩

theorem SameDirectory.trans {L L' L'' : EngineLedger F} (h : SameDirectory L L')
    (h' : SameDirectory L' L'') : SameDirectory L L'' :=
  ⟨h'.accountsByPub.trans h.accountsByPub, h'.usernameToPub.trans h.usernameToPub⟩

theorem freezeEquivocator_sameDirectory (L : EngineLedger F) (ev : DoubleSpendEvidence F) :
    SameDirectory L (L.freezeEquivocator ev).1 := by
  unfold freezeEquivocator
  split
  · exact .refl L
  · exact ⟨rfl, rfl⟩

theorem flagFork_sameDirectory (L : EngineLedger F) (a b : Block F) :
    SameDirectory L (L.flagFork a b) := by
  unfold flagFork flagEquivocation
  split
  · exact (freezeEquivocator_sameDirectory L _).trans ⟨rfl, rfl⟩
  · exact ⟨rfl, rfl⟩

theorem applyEvidence_sameDirectory (P : Primitives F) (L : EngineLedger F)
    (ev : DoubleSpendEvidence F) : SameDirectory L (applyEvidence P L ev).1 := by
  unfold applyEvidence
  split
  · exact freezeEquivocator_sameDirectory L ev
  · exact .refl L

theorem applyEvidenceFromBlocks_sameDirectory (P : Primitives F) (L : EngineLedger F)
    (a b : Block F) : SameDirectory L (applyEvidenceFromBlocks P L a b).1 := by
  unfold applyEvidenceFromBlocks
  split
  · exact applyEvidence_sameDirectory P L _
  · exact .refl L

theorem applyAccountUpdate_sameDirectory (L : EngineLedger F) (pub : Hex)
    {updates : List (String × String)}
    (hnone : ∀ username, JsMap.find "username" updates = some username → username = "") :
    SameDirectory L (L.applyAccountUpdate pub updates) := by
  unfold applyAccountUpdate
  split
  · rename_i username _ hfind
    rw [if_pos (.inl (hnone username hfind))]
    exact .refl L
  · exact .refl L

theorem applyAccountUpdate_fields (L : EngineLedger F) (pub : Hex)
    {updates : List (String × String)} {username : String}
    (hfind : JsMap.find "username" updates = some username) (hne : username ≠ "") :
    SameDirectory (L.updateAccountFields pub (some username))
      (L.applyAccountUpdate pub updates) := by
  unfold applyAccountUpdate updateAccountFields
  rw [hfind]
  cases hget : L.accountsByPub.get? pub with
  | none => exact .refl L
  | some account =>
    simp only [hne, false_or]
    by_cases hsame : username = account.username
    · rw [if_pos hsame, if_pos hsame]
      subst hsame
      exact ⟨(JsMap.set_eq_self hget).symm, rfl⟩
    · rw [if_neg hsame, if_neg hsame]
      exact ⟨rfl, rfl⟩

theorem applyAccountUpdate_congr {L L' : EngineLedger F} (h : SameDirectory L L') (pub : Hex)
    (updates : List (String × String)) :
    SameDirectory (L.applyAccountUpdate pub updates) (L'.applyAccountUpdate pub updates) := by
  unfold applyAccountUpdate
  rw [h.accountsByPub]
  split
  · split
    · exact h
    · rw [h.usernameToPub]
      exact ⟨rfl, rfl⟩
  · exact h

section Calls

variable [JsNumber F] {P : Primitives F} {cfg : LedgerConfig} {L : EngineLedger F}

theorem applyBlock_sameDirectory (L : EngineLedger F) {b : Block F} (htype : b.type ≠ .update) :
    SameDirectory L (applyBlock P L b) := by
  unfold applyBlock
  cases hcase : b.type
  case send =>
    obtain ⟨_, h, -⟩ := applySend_eq L b
    simp only [h]
    exact ⟨rfl, rfl⟩
  case receive =>
    obtain ⟨_, _, h, -⟩ := applyReceive_eq L b
    simp only [h]
    exact ⟨rfl, rfl⟩
  case update => exact absurd hcase htype
  case nftMint =>
    obtain ⟨_, _, _, h⟩ := applyNftMint_eq L b
    simp only [h]
    exact ⟨rfl, rfl⟩
  case nftSend =>
    obtain ⟨_, _, _, h, -⟩ := applyNftSend_eq L b
    simp only [h]
    exact ⟨rfl, rfl⟩
  case nftReceive =>
    obtain ⟨_, _, _, _, h, -⟩ := applyNftReceive_eq L b
    simp only [h]
    exact ⟨rfl, rfl⟩
  case nftBurn =>
    obtain ⟨_, _, _, h⟩ := applyNftBurn_eq L b
    simp only [h]
    exact ⟨rfl, rfl⟩
  all_goals exact ⟨rfl, rfl⟩

theorem appendForeign_sameDirectory (h : Held F) (acc : AccountAccumulator) (b : Block F)
    (now : Int) : SameDirectory (applyBlock P (L.hold b.accountId ⟨h.chain ++ [b], acc⟩) b)
      (appendForeign P L h acc b now) :=
  ⟨rfl, rfl⟩

theorem appendForeign_quiet (h : Held F) (acc : AccountAccumulator) {b : Block F} (now : Int)
    (hb : b.type ≠ .update ∨ b.updates = none) :
    SameDirectory L (appendForeign P L h acc b now) := by
  have hheld : SameDirectory L (L.hold b.accountId ⟨h.chain ++ [b], acc⟩) := ⟨rfl, rfl⟩
  refine hheld.trans (.trans ?_ (appendForeign_sameDirectory h acc b now))
  by_cases htype : b.type = .update
  · have hnone := hb.resolve_left (not_not_intro htype)
    unfold applyBlock applyUpdate
    rw [htype, hnone]
    exact .refl _
  · exact applyBlock_sameDirectory _ htype

theorem appendForeign_update (h : Held F) (acc : AccountAccumulator) {b : Block F} (now : Int)
    (htype : b.type = .update) {updates : List (String × String)}
    (hupdates : b.updates = some updates) :
    SameDirectory (L.applyAccountUpdate b.accountId updates) (appendForeign P L h acc b now) := by
  refine .trans ?_ (appendForeign_sameDirectory h acc b now)
  unfold applyBlock applyUpdate
  rw [htype, hupdates]
  have hheld : SameDirectory L (L.hold b.accountId ⟨h.chain ++ [b], acc⟩) := ⟨rfl, rfl⟩
  exact applyAccountUpdate_congr hheld b.accountId updates

theorem addBlock_quiet (block : Block F) (now : Int)
    (hquiet : ∀ pub username, Renames P L (.addBlock block now) pub username → username = "") :
    SameDirectory L (addBlock P L block now).1 := by
  have houtcome := addBlock_outcome P L block now
  generalize addBlock P L block now = r at houtcome ⊢
  cases houtcome with
  | unchanged => exact .refl L
  | forked => exact flagFork_sameDirectory L _ block
  | emptied => exact ⟨rfl, rfl⟩
  | opened acc authentic opens root =>
    have htype : block.type ≠ .update := by
      rw [opens.type]
      intro h
      cases h
    have hopened : SameDirectory L (L.hold block.accountId ⟨[], []⟩) := ⟨rfl, rfl⟩
    exact hopened.trans (appendForeign_quiet ⟨[], []⟩ acc now (.inl htype))
  | extended h head acc authentic links checked root =>
    by_cases htype : block.type = .update
    · cases hupdates : block.updates with
      | none => exact appendForeign_quiet h acc now (.inr hupdates)
      | some updates =>
        refine .trans (applyAccountUpdate_sameDirectory L block.accountId ?_)
          (appendForeign_update h acc now htype hupdates)
        intro username hnamed
        exact hquiet block.accountId username (.received block now updates username h head acc
          authentic links checked root htype hupdates hnamed)
    · exact appendForeign_quiet h acc now (.inl htype)

theorem Draft.directory {pub priv : Hex} {head : Block F} {now : Int} {c : Call F}
    {content : BlockContent F} {effect : Effect F}
    (d : Draft P L pub priv head now c content effect) :
    (∃ updates, c = .createUpdate pub updates priv now ∧ L.equivocated.has pub = false ∧
        content = { nextContent head pub .update now head.balance with updates := some updates } ∧
        effect = fun L' _ => L'.applyAccountUpdate pub updates) ∨
      ∀ L' b, SameDirectory L' (effect L' b) := by
  cases d
  case update updates notFrozen _ => exact .inl ⟨updates, rfl, notFrozen, rfl, rfl⟩
  case nftMint =>
    right
    intro L' b
    obtain ⟨_, _, _, h⟩ := applyNftMint_eq L' b
    rw [h]
    exact ⟨rfl, rfl⟩
  case nftSend =>
    right
    intro L' b
    obtain ⟨_, _, _, h, -⟩ := applyNftSend_eq L' b
    rw [h]
    exact ⟨rfl, rfl⟩
  case nftReceive =>
    right
    intro L' b
    obtain ⟨_, _, _, _, h, -⟩ := applyNftReceive_eq L' b
    rw [h]
    exact ⟨rfl, rfl⟩
  case nftBurn =>
    right
    intro L' b
    obtain ⟨_, _, _, h⟩ := applyNftBurn_eq L' b
    rw [h]
    exact ⟨rfl, rfl⟩
  all_goals exact .inr fun _ _ => ⟨rfl, rfl⟩

theorem create_quiet {c : Call F} {pub priv : Hex} {now : Int} {r : EngineLedger F × CreateResult F}
    (houtcome : CreateOutcome P L c pub priv now r)
    (hquiet : ∀ pub username, Renames P L c pub username → username = "") :
    SameDirectory L r.1 := by
  cases houtcome with
  | refused => exact .refl L
  | thrown => exact .refl L
  | drafted h head content effect stored last draft =>
    rcases appendOwn_cases (P := P) (L := L) h content priv effect with
      ⟨acc, heq⟩ | ⟨acc, block, hcreate, heq⟩
    · rw [heq]
      exact ⟨rfl, rfl⟩
    · rw [heq]
      have hheld : SameDirectory L
          ((L.hold content.accountId ⟨h.chain ++ [block], acc⟩).indexBlock block) := ⟨rfl, rfl⟩
      refine hheld.trans ?_
      rcases draft.directory with ⟨updates, hc, notFrozen, hcontent, heffect⟩ | hsame
      · rw [heffect]
        refine applyAccountUpdate_sameDirectory _ pub fun username hnamed => ?_
        have hsigned : Signable P content priv h.acc := by
          rcases createBlock_cases P content priv h.acc with ⟨-, bytes, hnone⟩ | ⟨hsigned, -⟩
          · rw [hcreate] at hnone
            cases hnone
          · exact hsigned
        refine hquiet pub username ?_
        rw [hc]
        exact .created pub priv updates now username h head stored last notFrozen
          (hcontent ▸ hsigned) hnamed
      · exact hsame _ _

/-- The calls that write the two maps without an update block. -/
def Call.directory : Call F → Bool
  | .registerAccount _ | .updateAccountFields _ _ | .purgeAccount _ | .reset => true
  | _ => false

/-- Every other call that renames nobody leaves the two maps alone. -/
theorem step_quiet {c : Call F} (hc : c.directory = false)
    (hquiet : ∀ pub username, Renames P L c pub username → username = "") :
    SameDirectory L (step P cfg L c) := by
  cases hauthor : c.author with
  | some author =>
    obtain ⟨pub, priv, now⟩ := author
    obtain ⟨r, hstep, houtcome⟩ := step_of_author P cfg L hauthor
    rw [hstep]
    exact create_quiet houtcome hquiet
  | none =>
    cases c
    case openAccount pub priv nullifier attestations bond now =>
      have houtcome := openAccount_outcome P cfg L pub priv nullifier attestations bond now
      simp only [step]
      generalize openAccount P cfg L pub priv nullifier attestations bond now = r
        at houtcome ⊢
      cases houtcome with
      | refused => exact .refl L
      | thrown => exact ⟨rfl, rfl⟩
      | opened identity shard acc block admitted created =>
        simp only
        split
        · obtain ⟨_, h, -⟩ := bondStake_eq
            (({ L with identity }.hold pub ⟨[block], acc⟩).indexBlock block) pub (some MINT)
          rw [h]
          exact ⟨rfl, rfl⟩
        · exact ⟨rfl, rfl⟩
    case addBlock block now => exact addBlock_quiet block now hquiet
    case registerVerifiedMint proof tokenId =>
      obtain ⟨_, _, h⟩ := registerVerifiedMint_eq P cfg L proof tokenId
      simp only [step, h]
      exact ⟨rfl, rfl⟩
    case registerVerifiedSend packet recipientPub =>
      obtain ⟨_, _, _, h, -⟩ := registerVerifiedSend_eq P cfg L packet recipientPub
      simp only [step, h]
      exact ⟨rfl, rfl⟩
    case restoreVerifiedBlock block =>
      obtain ⟨_, _, _, _, _, _, h, -⟩ := restoreVerifiedBlock_eq P L block
      simp only [step, h]
      exact ⟨rfl, rfl⟩
    case applyEvidence ev => exact applyEvidence_sameDirectory P L ev
    case applyEvidenceFromBlocks a b => exact applyEvidenceFromBlocks_sameDirectory P L a b
    case bondStake pub amount =>
      obtain ⟨_, h, -⟩ := bondStake_eq L pub amount
      simp only [step, h]
      exact ⟨rfl, rfl⟩
    case applyCommitteeVote => exact ⟨rfl, rfl⟩
    case advanceEpoch betas activeValidators =>
      obtain ⟨_, _, _, _, _, h⟩ := advanceEpoch_eq P L betas activeValidators
      simp only [step, h]
      exact ⟨rfl, rfl⟩
    case setDiscoveredProviders => exact ⟨rfl, rfl⟩
    all_goals first | exact absurd hc.symm Bool.false_ne_true | cases hauthor

theorem step_renames {c : Call F} {pub : Hex} {username : String}
    (h : Renames P L c pub username) (hne : username ≠ "") :
    SameDirectory (L.updateAccountFields pub (some username)) (step P cfg L c) := by
  cases h with
  | fields => exact .refl _
  | created _ priv updates now _ held head stored last notFrozen signable named =>
    have hsome : updates ≠ [] := by
      rintro rfl
      cases named
    have hdrafted : Drafted P L (.createUpdate pub updates priv now) pub priv now held
        { nextContent head pub .update now head.balance with updates := some updates }
        (fun L' _ => L'.applyAccountUpdate pub updates) :=
      ⟨rfl, stored, ⟨head, last, .update updates notFrozen hsome⟩, fun htype => by cases htype⟩
    rw [step_of_createCall (hdrafted.createCall_eq cfg)]
    rcases createBlock_cases P _ priv held.acc with ⟨hunsigned, -⟩ | ⟨-, acc, block, hcreate⟩
    · exact absurd signable hunsigned
    · refine (applyAccountUpdate_fields L pub named hne).trans ?_
      simp only [appendOwn, hcreate]
      have hheld : SameDirectory L ((L.hold pub ⟨held.chain ++ [block], acc⟩).indexBlock block) :=
        ⟨rfl, rfl⟩
      exact applyAccountUpdate_congr hheld pub updates
  | received block now updates _ held head acc authentic links checked root type carried named =>
    refine (applyAccountUpdate_fields L block.accountId named hne).trans ?_
    have happended := appendForeign_update (P := P) (L := L) held acc now type carried
    rw [step, addBlock_extends now authentic links checked root]
    exact happended

end Calls

/-! ## The index mirrors the accounts -/

/-- The name of an account in the index; an empty username is none. -/
def indexedName (account : LedgerAccount) : Option String :=
  if account.username = "" then none else some account.username

theorem indexedName_eq_some {account : LedgerAccount} {username : String} :
    indexedName account = some username ↔ account.username = username ∧ username ≠ "" := by
  unfold indexedName
  by_cases hempty : account.username = ""
  · rw [if_pos hempty]
    constructor
    · intro h
      cases h
    · rintro ⟨rfl, hne⟩
      exact absurd hempty hne
  · rw [if_neg hempty, Option.some.injEq]
    constructor
    · rintro rfl
      exact ⟨rfl, hempty⟩
    · intro h
      exact h.1

/-- Every known account is filed under its own key, and the index is the reverse of the names. -/
structure Filed (L : EngineLedger F) : Prop where
  keyed : ∀ pub account, L.accountsByPub.get? pub = some account → account.pub = pub
  mirrors : Mirrors indexedName L.accountsByPub L.usernameToPub

section Filed

variable {L L' : EngineLedger F}

theorem filed_new (P : Primitives F) : (new P).Filed := by
  constructor
  · intro pub account hget
    cases hget
  · exact mirrors_empty

section

variable (h : L.Filed)
include h

theorem Filed.congr (hsame : SameDirectory L L') : L'.Filed := by
  obtain ⟨haccounts, hindex⟩ := hsame
  constructor
  · rw [haccounts]
    exact h.keyed
  · rw [haccounts, hindex]
    exact h.mirrors

theorem Filed.soundIndex : L.SoundIndex := by
  intro username pub hindex
  obtain ⟨account, hget, hname⟩ := (h.mirrors username pub).mp hindex
  exact ⟨account, hget, (indexedName_eq_some.mp hname).1⟩

theorem Filed.get?_username {pub : Hex} {account : LedgerAccount}
    (hget : L.accountsByPub.get? pub = some account) (hne : account.username ≠ "") :
    L.usernameToPub.get? account.username = some pub :=
  (h.mirrors account.username pub).mpr ⟨account, hget, indexedName_eq_some.mpr ⟨rfl, hne⟩⟩

theorem Filed.get?_empty : L.usernameToPub.get? "" = none := by
  cases hindex : L.usernameToPub.get? "" with
  | none => rfl
  | some pub =>
    obtain ⟨_, _, hname⟩ := (h.mirrors "" pub).mp hindex
    exact absurd rfl (indexedName_eq_some.mp hname).2

theorem Filed.eq_of_free {pub other : Hex} {username : String}
    (hfree : L.FreeName pub username) (hindex : L.usernameToPub.get? username = some other) :
    other = pub := by
  obtain ⟨account, hget, hname⟩ := (h.mirrors username other).mp hindex
  exact hfree other account hget (indexedName_eq_some.mp hname).1

theorem Filed.get?_eq (h' : L'.Filed) {pub : Hex} {account : LedgerAccount}
    (hget : L.accountsByPub.get? pub = some account)
    (hget' : L'.accountsByPub.get? pub = some account) :
    L'.usernameToPub.get? account.username = L.usernameToPub.get? account.username := by
  by_cases hempty : account.username = ""
  · rw [hempty, h.get?_empty, h'.get?_empty]
  · rw [h.get?_username hget hempty, h'.get?_username hget' hempty]

/-- A ledger that keeps the other accounts, and makes no key of a name that one of them has,
keeps their routes. -/
theorem Filed.keepsRoutes (h' : L'.Filed) {actor : Hex}
    (hothers : ∀ pub, pub ≠ actor → L'.accountsByPub.get? pub = L.accountsByPub.get? pub)
    (hkeys : ∀ pub account, pub ≠ actor → L.accountsByPub.get? pub = some account →
      L'.accountsByPub.has account.username = L.accountsByPub.has account.username) :
    KeepsRoutes L actor L' := by
  intro pub account hpub hget
  have hget' : L'.accountsByPub.get? pub = some account := (hothers pub hpub).trans hget
  have hindex := h.get?_eq h' hget hget'
  constructor
  · rw [resolveToPublicKey, resolveToPublicKey, hkeys pub account hpub hget, hindex]
  · by_cases hempty : account.username = ""
    · rw [hempty, getAccountByUsername, getAccountByUsername, h.get?_empty, h'.get?_empty]
    · rw [getAccountByUsername, getAccountByUsername, h.get?_username hget hempty,
        h'.get?_username hget' hempty]
      simp only [hget, hget']

/-- A call that gives `actor` the name of another account changes where the name leads. -/
theorem Filed.not_keepsRoutes {actor pub : Hex} {account account' : LedgerAccount}
    (hpub : pub ≠ actor) (hget : L.accountsByPub.get? pub = some account)
    (hne : account.username ≠ "") (hindex' : L'.usernameToPub.get? account.username = some actor)
    (hget' : L'.accountsByPub.get? actor = some account') (hkeyed' : account'.pub = actor) :
    ¬ KeepsRoutes L actor L' := by
  intro hkept
  have hroute := (hkept pub account hpub hget).2
  unfold getAccountByUsername at hroute
  rw [hindex', h.get?_username hget hne] at hroute
  simp only [hget, hget'] at hroute
  by_cases hactor : actor = ""
  · have hpub' : pub ≠ "" := by
      rintro rfl
      exact hpub hactor.symm
    rw [if_pos hactor, if_neg hpub'] at hroute
    cases hroute
  · rw [if_neg hactor] at hroute
    by_cases hempty : pub = ""
    · rw [if_pos hempty] at hroute
      cases hroute
    · rw [if_neg hempty, Option.some.injEq] at hroute
      rw [hroute, h.keyed pub account hget] at hkeyed'
      exact hpub hkeyed'

end

theorem KeepsRoutes.congr {L'' : EngineLedger F} {actor : Hex} (h : KeepsRoutes L actor L')
    (hsame : SameDirectory L' L'') : KeepsRoutes L actor L'' := by
  intro pub account hpub hget
  obtain ⟨hresolve, haccount⟩ := h pub account hpub hget
  constructor
  · rw [← hresolve, resolveToPublicKey, resolveToPublicKey, hsame.accountsByPub,
      hsame.usernameToPub]
  · rw [← haccount, getAccountByUsername, getAccountByUsername, hsame.accountsByPub,
      hsame.usernameToPub]

theorem keepsRoutes_of_same (actor : Hex) (hsame : SameDirectory L L') : KeepsRoutes L actor L' :=
  KeepsRoutes.congr (fun _ _ _ _ => ⟨rfl, rfl⟩) hsame

end Filed

/-! ## Registration -/

section Registration

variable {L : EngineLedger F} {account : LedgerAccount}

theorem registerAccount_known (hknown : L.accountsByPub.get? account.pub ≠ none) :
    L.registerAccount account = L := by
  have hhas : L.accountsByPub.has account.pub = true := by
    rw [JsMap.has, Option.isSome_iff_ne_none]
    exact hknown
  unfold registerAccount
  rw [if_pos hhas]

theorem registerAccount_fresh (hfresh : L.accountsByPub.get? account.pub = none) :
    L.registerAccount account =
      { L with
        accountsByPub := L.accountsByPub.set account.pub account
        usernameToPub := if account.username = "" then L.usernameToPub
          else L.usernameToPub.set account.username account.pub } := by
  have hhas : ¬ L.accountsByPub.has account.pub = true := by
    rw [JsMap.has, hfresh]
    exact Bool.false_ne_true
  unfold registerAccount
  rw [if_neg hhas]

theorem Filed.registerAccount (h : L.Filed) (hfresh : L.accountsByPub.get? account.pub = none)
    (hfree : account.username ≠ "" → L.FreeName account.pub account.username) :
    (L.registerAccount account).Filed := by
  rw [registerAccount_fresh hfresh]
  constructor
  · intro pub known hget
    rw [JsMap.get?_set] at hget
    split at hget
    · rename_i hpub
      cases hget
      exact hpub
    · exact h.keyed pub known hget
  · by_cases hempty : account.username = ""
    · simp only [if_pos hempty]
      exact h.mirrors.insert_unnamed hfresh (by rw [indexedName, if_pos hempty])
    · simp only [if_neg hempty]
      refine h.mirrors.insert hfresh (indexedName_eq_some.mpr ⟨rfl, hempty⟩) ?_
      cases hindex : L.usernameToPub.get? account.username with
      | none => rfl
      | some other =>
        obtain ⟨known, hknown, -⟩ := (h.mirrors account.username other).mp hindex
        rw [h.eq_of_free (hfree hempty) hindex, hfresh] at hknown
        cases hknown

theorem Filed.registerAccount_keepsRoutes (h : L.Filed)
    (hfresh : L.accountsByPub.get? account.pub = none)
    (hfree : account.username ≠ "" → L.FreeName account.pub account.username)
    (hkey : ∀ other known, L.accountsByPub.get? other = some known →
      known.username ≠ account.pub) :
    KeepsRoutes L account.pub (L.registerAccount account) := by
  refine h.keepsRoutes (h.registerAccount hfresh hfree) ?_ ?_
  · intro pub hpub
    rw [registerAccount_fresh hfresh]
    exact JsMap.get?_set_ne _ _ (Ne.symm hpub)
  · intro pub known _ hget
    rw [registerAccount_fresh hfresh, JsMap.has_set, decide_eq_false (hkey pub known hget).symm,
      Bool.false_or]

/-- A registration that keeps the routes of the others brings a name that is free and a key that
is nobody's name. -/
theorem Filed.free_of_registerAccount (h : L.Filed)
    (hfresh : L.accountsByPub.get? account.pub = none)
    (hkept : KeepsRoutes L account.pub (L.registerAccount account)) :
    (account.username ≠ "" → L.FreeName account.pub account.username) ∧
      ∀ other known, L.accountsByPub.get? other = some known → known.username ≠ account.pub := by
  have hother : ∀ {other : Hex} {known : LedgerAccount},
      L.accountsByPub.get? other = some known → other ≠ account.pub := by
    rintro other known hknown rfl
    rw [hfresh] at hknown
    cases hknown
  have heq := registerAccount_fresh hfresh
  constructor
  · intro hne other known hknown hname
    refine absurd hkept (h.not_keepsRoutes (hother hknown) hknown (hname ▸ hne) ?_ ?_ rfl)
    · rw [heq, hname]
      simp only [if_neg hne, JsMap.get?_set_self]
    · rw [heq]
      exact JsMap.get?_set_self _ _ _
  · intro other known hknown hname
    have hroute := (hkept other known (hother hknown) hknown).1
    rw [hname, heq, resolveToPublicKey, resolveToPublicKey, JsMap.has_set, decide_eq_true rfl,
      Bool.true_or, if_pos rfl, JsMap.has, hfresh, Option.isSome_none,
      if_neg Bool.false_ne_true] at hroute
    obtain ⟨self, hself, -⟩ := (h.mirrors _ _).mp hroute.symm
    rw [hfresh] at hself
    cases hself

end Registration

/-! ## Renaming -/

section Renaming

variable {L : EngineLedger F} {pub : Hex} {account : LedgerAccount}

theorem updateAccountFields_known (hget : L.accountsByPub.get? pub = some account)
    (username : String) : L.updateAccountFields pub (some username) =
      { L with
        accountsByPub := L.accountsByPub.set pub { account with username }
        usernameToPub := if username = "" ∨ username = account.username then L.usernameToPub
          else (L.usernameToPub.delete account.username).set username pub } := by
  unfold updateAccountFields
  rw [hget]

theorem updateAccountFields_unknown (hget : L.accountsByPub.get? pub = none)
    (username : Option String) : L.updateAccountFields pub username = L := by
  unfold updateAccountFields
  rw [hget]

variable {username : String}

theorem Filed.updateAccountFields (h : L.Filed) (hget : L.accountsByPub.get? pub = some account)
    (hfree : username ≠ "" → L.FreeName pub username)
    (hkeeps : username = "" → account.username = "") :
    (L.updateAccountFields pub (some username)).Filed := by
  rw [updateAccountFields_known hget]
  constructor
  · intro other known hknown
    rw [JsMap.get?_set] at hknown
    split at hknown
    · rename_i hpub
      cases hknown
      exact (h.keyed pub account hget).trans hpub
    · exact h.keyed other known hknown
  · by_cases hsame : username = "" ∨ username = account.username
    · simp only [if_pos hsame]
      have husername : username = account.username := by
        rcases hsame with hempty | hsame
        · rw [hempty, hkeeps hempty]
        · exact hsame
      exact h.mirrors.replace hget (by rw [husername])
    · simp only [if_neg hsame]
      obtain ⟨hne, hdiffers⟩ := not_or.mp hsame
      refine h.mirrors.rename hget ?_ ?_ (indexedName_eq_some.mpr ⟨rfl, hne⟩) ?_
      · intro name hname
        exact (indexedName_eq_some.mp hname).1.symm
      · intro other hindex
        obtain ⟨known, hknown, hname⟩ := (h.mirrors account.username other).mp hindex
        exact h.mirrors.unique hknown hget hname
          (indexedName_eq_some.mpr ⟨rfl, (indexedName_eq_some.mp hname).2⟩)
      · intro other hindex
        exact h.eq_of_free (hfree hne) hindex

theorem Filed.updateAccountFields_keepsRoutes (h : L.Filed)
    (hget : L.accountsByPub.get? pub = some account)
    (hfree : username ≠ "" → L.FreeName pub username)
    (hkeeps : username = "" → account.username = "") :
    KeepsRoutes L pub (L.updateAccountFields pub (some username)) := by
  refine h.keepsRoutes (h.updateAccountFields hget hfree hkeeps) ?_ ?_
  · intro other hother
    rw [updateAccountFields_known hget]
    exact JsMap.get?_set_ne _ _ (Ne.symm hother)
  · intro other known _ _
    rw [updateAccountFields_known hget, JsMap.has_set]
    by_cases hpub : pub = known.username
    · rw [← hpub, JsMap.has, hget, Option.isSome_some, Bool.or_true]
    · rw [decide_eq_false hpub, Bool.false_or]

theorem Filed.rename (h : L.Filed) {pub : Hex}
    (hfree : ∀ account, L.accountsByPub.get? pub = some account → username ≠ "" →
      L.FreeName pub username)
    (hkeeps : ∀ account, L.accountsByPub.get? pub = some account → username = "" →
      account.username = "") : (L.updateAccountFields pub (some username)).Filed ∧
      KeepsRoutes L pub (L.updateAccountFields pub (some username)) := by
  cases hget : L.accountsByPub.get? pub with
  | none =>
    rw [updateAccountFields_unknown hget]
    exact ⟨h, keepsRoutes_of_same pub (.refl L)⟩
  | some account =>
    exact ⟨h.updateAccountFields hget (hfree account hget) (hkeeps account hget),
      h.updateAccountFields_keepsRoutes hget (hfree account hget) (hkeeps account hget)⟩

theorem Filed.free_of_updateAccountFields (h : L.Filed)
    (hget : L.accountsByPub.get? pub = some account) (hne : username ≠ "")
    (hkept : KeepsRoutes L pub (L.updateAccountFields pub (some username))) :
    L.FreeName pub username := by
  intro other known hknown hname
  by_contra hother
  have hdiffers : username ≠ account.username := by
    intro hsame
    exact hother (h.mirrors.unique hknown hget (indexedName_eq_some.mpr ⟨hname, hne⟩)
      (indexedName_eq_some.mpr ⟨hsame.symm, hne⟩))
  have hrenamed : (L.updateAccountFields pub (some username)).accountsByPub.get? pub =
      some { account with username } := by
    rw [updateAccountFields_known hget]
    exact JsMap.get?_set_self _ _ _
  refine h.not_keepsRoutes hother hknown (hname ▸ hne) ?_ hrenamed (h.keyed pub account hget) hkept
  rw [updateAccountFields_known hget, hname]
  simp only [if_neg (not_or.mpr ⟨hne, hdiffers⟩), JsMap.get?_set_self]

theorem Filed.unnamed_of_soundIndex (h : L.Filed) (hget : L.accountsByPub.get? pub = some account)
    (hsound : (L.updateAccountFields pub (some "")).SoundIndex) : account.username = "" := by
  by_contra hne
  obtain ⟨known, hknown, hname⟩ := hsound account.username pub (by
    rw [updateAccountFields_known hget]
    simp only [true_or, if_true]
    exact h.get?_username hget hne)
  rw [updateAccountFields_known hget] at hknown
  simp only [JsMap.get?_set_self, Option.some.injEq] at hknown
  rw [← hknown] at hname
  exact hne hname.symm

theorem Filed.purgeAccount (h : L.Filed) (pub : Hex) : (L.purgeAccount pub).Filed := by
  constructor
  · intro other known hknown
    exact h.keyed other known (JsMap.get?_of_get?_delete hknown).2
  · unfold EngineLedger.purgeAccount
    cases hget : L.accountsByPub.get? pub with
    | none =>
      have hsame : ∀ other, (L.accountsByPub.delete pub).get? other =
          L.accountsByPub.get? other := by
        intro other
        rw [JsMap.get?_delete]
        split
        · rename_i hpub
          rw [← hpub, hget]
        · rfl
      exact h.mirrors.congr hsame
    | some account =>
      refine h.mirrors.remove hget ?_ ?_
      · intro name hname
        exact (indexedName_eq_some.mp hname).1.symm
      · intro other hindex
        obtain ⟨known, hknown, hname⟩ := (h.mirrors account.username other).mp hindex
        exact h.mirrors.unique hknown hget hname
          (indexedName_eq_some.mpr ⟨rfl, (indexedName_eq_some.mp hname).2⟩)

end Renaming

/-! ## Runs -/

section Runs

variable [JsNumber F] {P : Primitives F} {cfg : LedgerConfig} {L : EngineLedger F}

theorem Renames.actor {c : Call F} {pub : Hex} {username : String}
    (h : Renames P L c pub username) : c.actor = some pub := by
  cases h <;> rfl

/-- One call that takes nobody's name. -/
theorem filed_step (h : L.Filed) {c : Call F} (hfree : Uncontested P L c) :
    (step P cfg L c).Filed ∧
      ∀ actor, c.actor = some actor → KeepsRoutes L actor (step P cfg L c) := by
  by_cases hrenames : ∃ pub username, Renames P L c pub username ∧ username ≠ ""
  · obtain ⟨pub, username, hrename, hne⟩ := hrenames
    have hstep : SameDirectory (L.updateAccountFields pub (some username)) (step P cfg L c) :=
      step_renames hrename hne
    have hfields := h.rename (fun account hget => hfree.renames pub username account hrename hget)
      fun _ _ hempty => absurd hempty hne
    refine ⟨hfields.1.congr hstep, fun actor hactor => ?_⟩
    rw [hrename.actor, Option.some.injEq] at hactor
    subst hactor
    exact hfields.2.congr hstep
  · have hquiet : ∀ pub username, Renames P L c pub username → username = "" := by
      intro pub username hrename
      by_contra hne
      exact hrenames ⟨pub, username, hrename, hne⟩
    cases hc : c.directory with
    | false =>
      have hsame : SameDirectory L (step P cfg L c) := step_quiet hc hquiet
      exact ⟨h.congr hsame, fun actor _ => keepsRoutes_of_same actor hsame⟩
    | true =>
      cases c
      case registerAccount account =>
        simp only [step]
        by_cases hfresh : L.accountsByPub.get? account.pub = none
        · obtain ⟨hname, hkey⟩ := hfree.registers account rfl hfresh
          refine ⟨h.registerAccount hfresh hname, fun actor hactor => ?_⟩
          cases hactor
          exact h.registerAccount_keepsRoutes hfresh hname hkey
        · rw [registerAccount_known hfresh]
          exact ⟨h, fun actor _ => keepsRoutes_of_same actor (.refl L)⟩
      case updateAccountFields pub username =>
        simp only [step]
        cases username with
        | none =>
          have hsame : L.updateAccountFields pub none = L := by
            unfold EngineLedger.updateAccountFields
            split
            · rename_i hnone
              cases hnone
            · rfl
          rw [hsame]
          exact ⟨h, fun actor _ => keepsRoutes_of_same actor (.refl L)⟩
        | some username =>
          have hempty := hquiet pub username (.fields pub username)
          subst hempty
          have hfields := h.rename (fun _ _ hne => absurd rfl hne)
            fun account hget _ => hfree.keeps pub account rfl hget
          refine ⟨hfields.1, fun actor hactor => ?_⟩
          cases hactor
          exact hfields.2
      case purgeAccount pub =>
        refine ⟨h.purgeAccount pub, fun actor hactor => ?_⟩
        cases hactor
      case reset =>
        refine ⟨(filed_new P).congr ⟨rfl, rfl⟩, fun actor hactor => ?_⟩
        cases hactor
      all_goals cases hc

theorem uncontested_of_routed (h : L.Filed) {c : Call F} (hrouted : Routed L c (step P cfg L c)) :
    Uncontested P L c where
  registers := by
    rintro account rfl hfresh
    exact h.free_of_registerAccount hfresh (hrouted.kept account.pub rfl)
  renames := by
    intro pub username account hrename hget hne
    have hstep : SameDirectory (L.updateAccountFields pub (some username)) (step P cfg L c) :=
      step_renames hrename hne
    have hkept := hrouted.kept pub hrename.actor
    exact h.free_of_updateAccountFields hget hne
      (hkept.congr ⟨hstep.accountsByPub.symm, hstep.usernameToPub.symm⟩)
  keeps := by
    rintro pub account rfl hget
    exact h.unnamed_of_soundIndex hget hrouted.sound

/-- The index stays sound, and the registrations and updates of one account leave the routes
of all others alone, exactly as long as no call takes a name that is not free. -/
theorem usernames_routed (P : Primitives F) (cfg : LedgerConfig) (calls : List (Call F)) :
    Run.EveryStep (step P cfg) Routed (new P) calls ↔
      Run.StepsMeet (step P cfg) (Uncontested P) (new P) calls := by
  refine Run.everyStep_iff_stepsMeet_of_kept (Q := Filed) (N := fun _ _ => True) ?_ ?_
    (filed_new P) (Run.stepsMeet_of_forall (fun _ _ => trivial) _ _)
  · intro L c h _ hrouted
    exact (filed_step h (uncontested_of_routed h hrouted)).1
  · intro L c h _
    constructor
    · intro hrouted
      exact uncontested_of_routed h hrouted
    · intro hfree
      have hstep : (step P cfg L c).Filed ∧
          ∀ actor, c.actor = some actor → KeepsRoutes L actor (step P cfg L c) :=
        filed_step h hfree
      exact ⟨hstep.1.soundIndex, hstep.2⟩

end Runs

/-! ## Names that are taken -/

/-- Alice registers, and then Bob under her name. -/
def namesakes : List (Call Rat) :=
  [.registerAccount ⟨"alice", "02a"⟩, .registerAccount ⟨"alice", "02b"⟩]

def ledgerOfNamesakes : EngineLedger Rat :=
  Run.final (step Sample.primitives Sample.config) (new Sample.primitives) namesakes

/-- Alice's name leads to Bob; when she takes another one Bob's entry goes, too; and an account
whose name is emptied is still found under the old one. -/
theorem namesake_takes_route :
    ¬ Run.EveryStep (step Sample.primitives Sample.config) Routed (new Sample.primitives)
      namesakes ∧
    (ledgerOfNamesakes.resolveToPublicKey "alice" = some "02b" ∧
      ledgerOfNamesakes.usernameOf "02a" = some "alice") ∧
    ((ledgerOfNamesakes.updateAccountFields "02a" (some "alicia")).resolveToPublicKey "alice" =
      none ∧ ledgerOfNamesakes.usernameOf "02b" = some "alice") ∧
    ((ledgerOfNamesakes.updateAccountFields "02b" (some "")).usernameToPub.get? "alice" =
      some "02b" ∧
      (ledgerOfNamesakes.updateAccountFields "02b" (some "")).usernameOf "02b" = some "") := by
  refine ⟨?_, by decide +kernel, by decide +kernel, by decide +kernel⟩
  rintro ⟨-, hrouted, -⟩
  have hkept := (hrouted.kept "02b" rfl "02a" ⟨"alice", "02a"⟩ (by decide) rfl).1
  revert hkept
  decide +kernel

end NeuronWeb.EngineLedger
