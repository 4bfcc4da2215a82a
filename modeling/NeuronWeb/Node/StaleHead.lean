/-
  Node/StaleHead: claiming while the own chain is behind.

  A receive on a stale head forks the account that claims, so every pass asks the archives
  first. The gate takes the maximum of what they name, and an exception of the fold counts as
  permission: one answer that makes the fold throw, or whose index is not-a-number, opens the
  gate for all the others (`gate_closed_iff`).
-/
import NeuronWeb.Directory.Sample
import NeuronWeb.Ledger.Sample
import NeuronWeb.Node.PendingInbound

set_option autoImplicit false

namespace NeuronWeb

variable {F : Type} [JsNumber F]

/-! ## The fold over the answers -/

namespace PendingSends

/-- An answer that the fold looks at. -/
def Taken (answers : List (Option (Json F))) (body : Json F) : Prop :=
  some body ∈ answers ∧ body.falsy = false

/-- The fold does not throw on the answer. -/
def Readable (T : JsText F) (body : Json F) : Prop :=
  (headOf T body).isSome = true ∧ (rowsOf body).isSome = true

/-- The index of the answer is a number. -/
def Numeric (T : JsText F) (body : Json F) : Prop :=
  ∀ index, headOf T body = some index → JsNumber.same index index = true

/-- The answer names an index above `z`. -/
def Above (T : JsText F) (z : F) (body : Json F) : Prop :=
  ∃ index, headOf T body = some index ∧ JsNumber.lt z index = true

variable {T : JsText F} {answers : List (Option (Json F))} {found r : PendingSends F}

theorem taken_cons {answer : Option (Json F)} {body : Json F} :
    Taken (answer :: answers) body ↔
      (answer = some body ∧ body.falsy = false) ∨ Taken answers body := by
  simp only [Taken, List.mem_cons]
  constructor
  · rintro ⟨rfl | hmem, hfalsy⟩
    · exact .inl ⟨rfl, hfalsy⟩
    · exact .inr ⟨hmem, hfalsy⟩
  · rintro (⟨rfl, hfalsy⟩ | ⟨hmem, hfalsy⟩)
    · exact ⟨.inl rfl, hfalsy⟩
    · exact ⟨.inr hmem, hfalsy⟩

theorem take_cases (T : JsText F) (found : PendingSends F) (answer : Option (Json F)) :
    ((∀ body, answer = some body → body.falsy = true) ∧ take T found answer = some found) ∨
    ∃ body, answer = some body ∧ body.falsy = false ∧
      ((¬ Readable T body ∧ take T found answer = none) ∨
        ∃ index rows, headOf T body = some index ∧ rowsOf body = some rows ∧
          take T found answer =
            some ⟨JsNumber.max found.headIndex index, rows.foldl keepHint found.byHash⟩) := by
  cases answer with
  | none => exact .inl ⟨fun body h => (by cases h), rfl⟩
  | some body =>
    cases hfalsy : body.falsy with
    | true =>
      refine .inl ⟨fun b hb => ?_, by simp [take, hfalsy]⟩
      rw [← Option.some.inj hb]
      exact hfalsy
    | false =>
      refine .inr ⟨body, rfl, hfalsy, ?_⟩
      cases hhead : headOf T body with
      | none =>
        exact .inl ⟨by simp [Readable, hhead], by simp [take, hfalsy, hhead]⟩
      | some index =>
        cases hrows : rowsOf body with
        | none =>
          exact .inl ⟨by simp [Readable, hrows], by simp [take, hfalsy, hhead, hrows]⟩
        | some rows =>
          exact .inr ⟨index, rows, rfl, rfl, by simp [take, hfalsy, hhead, hrows]⟩

variable (T answers found) in
theorem fold_isSome_iff :
    (answers.foldlM (take T) found).isSome = true ↔
      ∀ body, Taken answers body → Readable T body := by
  induction answers generalizing found with
  | nil => simp [Taken]
  | cons answer rest ih =>
    simp only [List.foldlM_cons, taken_cons]
    rcases take_cases T found answer with ⟨hskip, htake⟩ | ⟨body, rfl, hfalsy, h⟩
    · simp only [htake, Option.bind_eq_bind, Option.bind_some, ih]
      constructor
      · rintro h body (⟨rfl, hfalsy⟩ | hbody)
        · rw [hskip body rfl] at hfalsy
          cases hfalsy
        · exact h body hbody
      · exact fun h body hbody => h body (.inr hbody)
    · rcases h with ⟨hunreadable, htake⟩ | ⟨index, rows, hhead, hrows, htake⟩
      · simp only [htake, Option.bind_eq_bind, Option.bind_none, Option.isSome_none,
          Bool.false_eq_true, false_iff]
        exact fun h => hunreadable (h body (.inl ⟨rfl, hfalsy⟩))
      · simp only [htake, Option.bind_eq_bind, Option.bind_some, ih]
        constructor
        · rintro h other (⟨hother, -⟩ | hother)
          · rw [← Option.some.inj hother, Readable, hhead, hrows]
            exact ⟨rfl, rfl⟩
          · exact h other hother
        · exact fun h other hother => h other (.inr hother)

theorem fold_cons {answer : Option (Json F)}
    (h : (answer :: answers).foldlM (take T) found = some r) :
    ∃ next, take T found answer = some next ∧ answers.foldlM (take T) next = some r := by
  rw [List.foldlM_cons] at h
  exact Option.bind_eq_some_iff.mp h

variable [MaxJsNumber F]

/-- The maximum is a number where every index is one. -/
theorem same_headIndex (h : answers.foldlM (take T) found = some r) :
    JsNumber.same r.headIndex r.headIndex = true ↔
      JsNumber.same found.headIndex found.headIndex = true ∧
        ∀ body, Taken answers body → Numeric T body := by
  induction answers generalizing found with
  | nil =>
    rw [← Option.some.inj h]
    simp [Taken]
  | cons answer rest ih =>
    obtain ⟨next, htake, hrest⟩ := fold_cons h
    rw [ih hrest]
    simp only [taken_cons]
    rcases take_cases T found answer with ⟨hskip, hsame⟩ | ⟨body, rfl, hfalsy, hcase⟩
    · rw [hsame, Option.some.injEq] at htake
      subst htake
      refine and_congr_right fun _ => ⟨?_, fun h body hbody => h body (.inr hbody)⟩
      rintro h body (⟨rfl, hfalsy⟩ | hbody)
      · rw [hskip body rfl] at hfalsy
        cases hfalsy
      · exact h body hbody
    · rcases hcase with ⟨-, hnone⟩ | ⟨index, rows, hhead, -, hsome⟩
      · rw [hnone] at htake
        cases htake
      · rw [hsome, Option.some.injEq] at htake
        subst htake
        simp only [MaxJsNumber.same_max, Bool.and_eq_true]
        constructor
        · rintro ⟨⟨hfound, hindex⟩, hnumeric⟩
          refine ⟨hfound, ?_⟩
          rintro other (⟨hother, -⟩ | hother) z hz
          · rw [← Option.some.inj hother, hhead, Option.some.injEq] at hz
            rw [← hz]
            exact hindex
          · exact hnumeric other hother z hz
        · rintro ⟨hfound, hnumeric⟩
          exact ⟨⟨hfound, hnumeric body (.inl ⟨rfl, hfalsy⟩) index hhead⟩,
            fun other hother => hnumeric other (.inr hother)⟩

/-- A number is below the maximum when it is below what the fold starts from or below an
index that an answer names. -/
theorem lt_headIndex (h : answers.foldlM (take T) found = some r)
    (hsame : JsNumber.same r.headIndex r.headIndex = true) (z : F) :
    JsNumber.lt z r.headIndex = true ↔
      JsNumber.lt z found.headIndex = true ∨ ∃ body, Taken answers body ∧ Above T z body := by
  induction answers generalizing found with
  | nil =>
    rw [← Option.some.inj h]
    simp [Taken]
  | cons answer rest ih =>
    obtain ⟨next, htake, hrest⟩ := fold_cons h
    rw [ih hrest]
    have hnext := ((same_headIndex hrest).mp hsame).1
    simp only [taken_cons]
    rcases take_cases T found answer with ⟨hskip, hkept⟩ | ⟨body, rfl, hfalsy, hcase⟩
    · rw [hkept, Option.some.injEq] at htake
      subst htake
      refine or_congr_right ⟨?_, ?_⟩
      · rintro ⟨body, hbody, habove⟩
        exact ⟨body, .inr hbody, habove⟩
      · rintro ⟨body, ⟨rfl, hfalsy⟩ | hbody, habove⟩
        · rw [hskip body rfl] at hfalsy
          cases hfalsy
        · exact ⟨body, hbody, habove⟩
    · rcases hcase with ⟨-, hnone⟩ | ⟨index, rows, hhead, -, hsome⟩
      · rw [hnone] at htake
        cases htake
      · rw [hsome, Option.some.injEq] at htake
        subst htake
        simp only [MaxJsNumber.same_max, Bool.and_eq_true] at hnext
        rw [MaxJsNumber.lt_max _ _ _ hnext.1 hnext.2, Bool.or_eq_true, or_assoc]
        refine or_congr_right ⟨?_, ?_⟩
        · rintro (hlt | ⟨other, hother, habove⟩)
          · exact ⟨body, .inl ⟨rfl, hfalsy⟩, index, hhead, hlt⟩
          · exact ⟨other, .inr hother, habove⟩
        · rintro ⟨other, ⟨hother, -⟩ | hother, habove⟩
          · obtain ⟨z', hz', hlt⟩ := habove
            rw [← Option.some.inj hother, hhead, Option.some.injEq] at hz'
            rw [hz']
            exact .inl hlt
          · exact .inr ⟨other, hother, habove⟩

end PendingSends

/-! ## The gate -/

namespace InboundPass

open PendingSends

/-- Some relay reports a finite index above the local head. -/
def Reported (p : InboundPass F) (L : EngineLedger F) (pub : Hex) : Prop :=
  ∃ body, Taken (p.archives.pendingSends pub) body ∧ ∃ index, headOf p.text body = some index ∧
    JsNumber.isFinite index = true ∧ JsNumber.lt (JsNumber.ofInt (localHead L pub)) index = true

/-- No answer makes the fold throw, and every index is a number. -/
def Countable (p : InboundPass F) (pub : Hex) : Prop :=
  ∀ body, Taken (p.archives.pendingSends pub) body → Readable p.text body ∧ Numeric p.text body

variable {p : InboundPass F} {L : EngineLedger F} {pub : Hex}

/-- The gate is closed exactly where the fold reads every answer, finds numbers only, and one
of them is above the local head. -/
theorem gate_closed_iff [OrderedJsNumber F] [MaxJsNumber F] :
    p.ownChainIsCurrent L pub = false ↔ p.Countable pub ∧
      (JsNumber.lt (JsNumber.ofInt (localHead L pub) : F) (JsNumber.ofInt (-1)) = true ∨
        ∃ body, Taken (p.archives.pendingSends pub) body ∧
          Above p.text (JsNumber.ofInt (localHead L pub)) body) := by
  unfold ownChainIsCurrent fetchPendingSends
  have hreturns := fold_isSome_iff p.text (p.archives.pendingSends pub)
    ⟨JsNumber.ofInt (-1), JsMap.empty⟩
  cases hfold : (p.archives.pendingSends pub).foldlM (take p.text)
      ⟨JsNumber.ofInt (-1), JsMap.empty⟩ with
  | none =>
    rw [hfold] at hreturns
    simp only [Bool.true_eq_false, false_iff, not_and]
    intro hcountable
    exact absurd (hreturns.mpr fun body hbody => (hcountable body hbody).1) (by simp)
  | some r =>
    rw [hfold] at hreturns
    have hreadable := hreturns.mp rfl
    have hsame := same_headIndex hfold
    simp only [behind, Bool.not_eq_false']
    constructor
    · intro hlt
      have hnumber := (OrderedJsNumber.same_of_lt _ _ hlt).2
      have hnumeric := (hsame.mp hnumber).2
      exact ⟨fun body hbody => ⟨hreadable body hbody, hnumeric body hbody⟩,
        (lt_headIndex hfold hnumber _).mp hlt⟩
    · rintro ⟨hcountable, habove⟩
      have hnumber := hsame.mpr
        ⟨MaxJsNumber.same_ofInt _, fun body hbody => (hcountable body hbody).2⟩
      exact (lt_headIndex hfold hnumber _).mpr habove

theorem Reported.gate_closed_iff [OrderedJsNumber F] [MaxJsNumber F] (h : p.Reported L pub) :
    p.ownChainIsCurrent L pub = false ↔ p.Countable pub := by
  rw [InboundPass.gate_closed_iff]
  obtain ⟨body, hbody, index, hindex, -, hlt⟩ := h
  exact ⟨fun hclosed => hclosed.1, fun hcountable =>
    ⟨hcountable, .inr ⟨body, hbody, index, hindex, hlt⟩⟩⟩

end InboundPass

/-! ## What a receive leaves alone -/

namespace EngineLedger

variable {P : Primitives F} {L : EngineLedger F} {x : Hex}

theorem CreateOutcome.held_ne {c : Call F} {pub priv : Hex} {now : Int}
    {r : EngineLedger F × CreateResult F} (outcome : CreateOutcome P L c pub priv now r)
    (hx : pub ≠ x) : r.1.held.get? x = L.held.get? x ∧
      ∀ block, r.2 = .created block → block.accountId = pub := by
  cases outcome with
  | refused error => exact ⟨rfl, fun block h => by cases h⟩
  | thrown => exact ⟨rfl, fun block h => by cases h⟩
  | drafted h head content effect stored last draft =>
    obtain ⟨haccount, -⟩ := draft.header
    unfold appendOwn
    cases hcreate : createBlock P content priv h.acc with
    | mk acc result =>
      cases result with
      | none =>
        refine ⟨?_, fun block h => by cases h⟩
        simp only [get?_hold, haccount, if_neg hx]
      | some block =>
        refine ⟨?_, fun block' h => ?_⟩
        · simp only [(draft.sameChains _ block).held]
          rw [haccount]
          exact (get?_hold L pub _ x).trans (if_neg hx)
        · cases h
          obtain ⟨rfl, -⟩ := createBlock_eq_some hcreate
          exact haccount

theorem held_addBlock_ne (block : Block F) (now : Int) (hx : block.accountId ≠ x) :
    (addBlock P L block now).1.held.get? x = L.held.get? x := by
  have outcome := addBlock_outcome P L block now
  generalize addBlock P L block now = result at outcome
  cases outcome with
  | unchanged r => rfl
  | forked h existing error authentic forks =>
    simp only [flagFork, flagEquivocation, indexBlock]
    split
    · unfold freezeEquivocator
      split <;> rfl
    · rfl
  | emptied r authentic opens refused => exact (get?_hold L _ _ x).trans (if_neg hx)
  | opened acc authentic opens root =>
    refine (get?_held_appendForeign _ acc block now x).trans ((if_neg hx).trans ?_)
    exact (get?_hold L _ _ x).trans (if_neg hx)
  | extended h head acc authentic links checked root =>
    exact (get?_held_appendForeign h acc block now x).trans (if_neg hx)

end EngineLedger

namespace InboundPass

open EngineLedger PendingSends

variable {p : InboundPass F} {L L' : EngineLedger F} {pub x : Hex}

/-- The chain of an account is as it was. -/
def SameChain (x : Hex) (L L' : EngineLedger F) : Prop := L'.held.get? x = L.held.get? x

omit [JsNumber F] in
theorem SameChain.trans {L'' : EngineLedger F} (h : SameChain x L L') (h' : SameChain x L' L'') :
    SameChain x L L'' :=
  Eq.trans h' h

omit [JsNumber F] in
theorem SameChain.getAccountChain (h : SameChain x L L') :
    L'.getAccountChain x = L.getAccountChain x := by
  unfold EngineLedger.getAccountChain
  rw [h]

theorem SameChain.ownChainIsCurrent (h : SameChain x L L') :
    p.ownChainIsCurrent L' x = p.ownChainIsCurrent L x := by
  unfold InboundPass.ownChainIsCurrent behind localHead EngineLedger.getAccountHead
  rw [h.getAccountChain]

theorem receive_ne (nft : Bool) (hash priv : Hex) (hx : pub ≠ x) :
    SameChain x L (p.receive L nft pub hash priv).1 := by
  have hcreate : ∀ r : EngineLedger F × CreateResult F,
      (if nft then L.createReceiveNft p.primitives pub hash priv (p.clock hash)
        else L.createReceive p.primitives pub hash priv (p.clock hash)) = r →
      r.1.held.get? x = L.held.get? x ∧
        ∀ block, r.2 = .created block → block.accountId = pub := by
    rintro r rfl
    cases nft
    · exact (createReceive_outcome p.primitives L pub hash priv _).held_ne hx
    · exact (createReceiveNft_outcome p.primitives L pub hash priv _).held_ne hx
  unfold receive
  generalize (if nft then L.createReceiveNft p.primitives pub hash priv (p.clock hash)
    else L.createReceive p.primitives pub hash priv (p.clock hash)) = r at hcreate ⊢
  obtain ⟨hheld, hcreated⟩ := hcreate r rfl
  obtain ⟨L₁, result⟩ := r
  cases result with
  | refused error => exact hheld
  | thrown => exact hheld
  | created block =>
    have haccount : block.accountId ≠ x := by rw [hcreated block rfl]; exact hx
    have hadd := held_addBlock_ne (P := p.primitives) (L := L₁) block (p.clock hash) haccount
    simp only
    split
    case h_1 L₂ heq =>
      rw [heq] at hadd
      exact SameChain.trans hheld hadd
    case h_2 L₂ _ heq =>
      rw [heq] at hadd
      exact SameChain.trans hheld hadd

theorem receiveAll_ne (nft : Bool) (priv : Hex) (hx : pub ≠ x) (hashes : List Hex) :
    SameChain x L (p.receiveAll nft pub priv L hashes).1 := by
  induction hashes generalizing L with
  | nil => rfl
  | cons hash rest ih =>
    have hone := receive_ne (p := p) (L := L) nft hash priv hx
    unfold receiveAll
    split
    case h_1 L₁ heq =>
      rw [heq] at hone
      exact hone.trans ih
    case h_2 L₁ heq =>
      rw [heq] at hone
      exact hone

/-! ## Behind a closed gate -/

theorem autoReceiveEngine_chain (hclosed : p.ownChainIsCurrent L x = false) (block : Block F) :
    SameChain x L (p.autoReceiveEngine L block) := by
  unfold autoReceiveEngine
  split
  case isTrue => rfl
  case isFalse =>
    split
    case h_1 => rfl
    case h_2 recipient _ =>
      split
      case h_1 => rfl
      case h_2 priv _ =>
        by_cases hx : recipient = x
        · subst hx
          simp only [hclosed, if_true, ite_self]
          rfl
        · split
          · rfl
          · split
            · rfl
            · split
              · rfl
              · exact receive_ne _ _ _ hx

theorem timers_chain (hclosed : p.ownChainIsCurrent L x = false) (timers : List (Block F)) :
    SameChain x L (timers.foldl p.autoReceiveEngine L) := by
  induction timers generalizing L with
  | nil => rfl
  | cons block rest ih =>
    have hone := autoReceiveEngine_chain hclosed block
    exact hone.trans (ih (hone.ownChainIsCurrent.trans hclosed))

theorem sweepAccount_chain (pub : Hex) (hclosed : p.ownChainIsCurrent L x = false) (priv : Hex) :
    SameChain x L (p.sweepAccount L pub priv).1 := by
  unfold sweepAccount
  by_cases hx : pub = x
  · subst hx
    simp only [hclosed, Bool.not_false, Bool.and_true]
    split
    · rfl
    · -- nothing is to be claimed
      rename_i hwork
      simp only [Bool.or_eq_true, Bool.not_eq_true', not_or, Bool.not_eq_false,
        List.isEmpty_iff] at hwork
      simp only [hwork.1, receiveAll, hwork.2]
      rfl
  · have hsends := receiveAll_ne (p := p) (L := L) false priv hx (L.getUnclaimedForAccount pub)
    simp only
    split
    · rfl
    · split
      case h_1 L₁ heq =>
        rw [heq] at hsends
        exact hsends.trans (receiveAll_ne true priv hx _)
      case h_2 L₁ heq =>
        rw [heq] at hsends
        exact hsends

theorem sweepAccounts_chain (hclosed : p.ownChainIsCurrent L x = false)
    (accounts : List (Hex × Hex)) : SameChain x L (p.sweepAccounts L accounts) := by
  induction accounts generalizing L with
  | nil => rfl
  | cons account rest ih =>
    obtain ⟨pub, priv⟩ := account
    have hone := sweepAccount_chain pub hclosed priv
    unfold sweepAccounts
    split
    case h_1 L₁ heq =>
      rw [heq] at hone
      exact hone.trans (ih (hone.ownChainIsCurrent.trans hclosed))
    case h_2 L₁ heq =>
      rw [heq] at hone
      exact hone

theorem describeToken_held (send : Block F) : (p.describeToken L send).1.held = L.held := by
  unfold describeToken
  split
  case isTrue => rfl
  case isFalse =>
    split
    case h_1 => rfl
    case h_2 tokenId _ =>
      split
      · rfl
      · split
        · rfl
        · split
          case h_1 => rfl
          case h_2 mint _ =>
            have hheld : (L.step p.primitives p.config (.registerVerifiedMint mint tokenId)).held =
                L.held := step_held rfl
            simp only [EngineLedger.step] at hheld
            split
            case h_1 L₁ heq =>
              rw [heq] at hheld
              exact hheld
            case h_2 L₁ _ _ heq =>
              rw [heq] at hheld
              exact hheld

theorem claimViaProof_held (sender hash : Hex) :
    (p.claimViaProof L pub sender hash).1.held = L.held := by
  unfold claimViaProof
  split
  case isTrue => rfl
  case isFalse =>
    split
    case h_1 => rfl
    case h_2 packet _ =>
      split
      case isTrue => rfl
      case isFalse =>
        have htoken := describeToken_held (p := p) (L := L) packet.sendBlock
        split
        case h_1 L₁ heq =>
          rw [heq] at htoken
          exact htoken
        case h_2 L₁ heq =>
          rw [heq] at htoken
          have hsend : (L₁.step p.primitives p.config (.registerVerifiedSend packet pub)).held =
              L₁.held := step_held rfl
          simp only [EngineLedger.step] at hsend
          split
          case h_1 L₂ heq =>
            rw [heq] at hsend
            exact hsend.trans htoken
          case h_2 L₂ _ _ heq =>
            rw [heq] at hsend
            exact hsend.trans htoken

theorem claimHints_held (hints : List PendingSendHint) :
    (p.claimHints pub L hints).1.held = L.held := by
  induction hints generalizing L with
  | nil => rfl
  | cons hint rest ih =>
    unfold claimHints
    split
    · exact ih
    · exact ih.trans (claimViaProof_held hint.sender hint.blockHash)

theorem run_chain (hclosed : p.ownChainIsCurrent L x = false) (pass : ClaimPass F) :
    SameChain x L (p.run L pass) := by
  cases pass with
  | checkPendingInbound pub =>
    have hcheck : SameChain x L (p.checkPendingInbound L pub).1 := by
      unfold checkPendingInbound
      split
      · rfl
      · split
        · rfl
        · exact congrArg (JsMap.get? · x) (claimHints_held _)
    exact hcheck.trans (timers_chain (hcheck.ownChainIsCurrent.trans hclosed) _)
  | claimViaProof pub sender hash =>
    have hclaim : SameChain x L (p.claimViaProof L pub sender hash).1 :=
      congrArg (JsMap.get? · x) (claimViaProof_held sender hash)
    exact hclaim.trans (timers_chain (hclaim.ownChainIsCurrent.trans hclosed) _)
  | autoReceiveEngine block => exact autoReceiveEngine_chain hclosed block
  | sweepUnclaimedReceives => exact sweepAccounts_chain hclosed _

/-- Where a relay reports a head above the local one, the gate is closed and no pass touches
the chain of the account, exactly when no answer spoils the fold. -/
theorem stale_head_never_claims_iff [OrderedJsNumber F] [MaxJsNumber F] (p : InboundPass F)
    (L : EngineLedger F) (pub : Hex) (hreported : p.Reported L pub) :
    (p.ownChainIsCurrent L pub = false ∧
      ∀ pass, (p.run L pass).getAccountChain pub = L.getAccountChain pub) ↔
    p.Countable pub := by
  rw [← hreported.gate_closed_iff]
  exact ⟨fun h => h.1, fun hclosed =>
    ⟨hclosed, fun pass => (run_chain hclosed pass).getAccountChain⟩⟩

end InboundPass

/-! ## One malformed answer beside an honest one -/

namespace Sample

/-- Alice has paid Bob, whose device holds the genesis block of its chain only. -/
def paidLedger : EngineLedger Rat :=
  Run.final (EngineLedger.step primitives config) (EngineLedger.new primitives)
    [.registerAccount ⟨"bob", "bob"⟩, .openAccount "bob" "bob" "n" [] false 0,
      .openAccount "alice" "alice" "m" [] false 0, .createSend "alice" "bob" 5 "alice" 1]

/-- Bob's device, with what the archives answer about his transfers. -/
def inboundPass (pendingSends : List (Option (Json Rat))) : InboundPass Rat where
  primitives := primitives
  config := config
  reader := ⟨fun _ => none, fun _ => True⟩
  text := jsText
  archives := ⟨fun _ => pendingSends, fun _ _ => [], fun _ => []⟩
  localKeys := JsMap.empty.set "bob" "bob"
  clock _ := 9

/-- An archive that knows five more blocks of the account. -/
def newerHead : Json Rat := .obj [("headIndex", .int 5), ("sends", .arr [])]

/-- The honest answer, and one whose `sends` is no list. -/
def spoiledAnswers : List (Option (Json Rat)) :=
  [some newerHead, some (.obj [("sends", .int 5)])]

theorem reported_newerHead {answers : List (Option (Json Rat))} (h : some newerHead ∈ answers) :
    (inboundPass answers).Reported paidLedger "bob" := by
  refine ⟨newerHead, ⟨h, rfl⟩, 5, rfl, rfl, ?_⟩
  have hhead : localHead paidLedger "bob" = 0 := by decide +kernel
  rw [hhead]
  rfl

end Sample

theorem stale_head_never_claims_iff_newerHead :
    (Sample.inboundPass [some Sample.newerHead]).ownChainIsCurrent Sample.paidLedger "bob" =
        false ∧
      ∀ pass, ((Sample.inboundPass [some Sample.newerHead]).run Sample.paidLedger
        pass).getAccountChain "bob" = Sample.paidLedger.getAccountChain "bob" := by
  refine (InboundPass.stale_head_never_claims_iff _ _ _
    (Sample.reported_newerHead (List.mem_singleton.mpr rfl))).mpr ?_
  rintro body ⟨hmem, -⟩
  have hbody : body = Sample.newerHead := Option.some.inj (List.mem_singleton.mp hmem)
  subst hbody
  refine ⟨⟨rfl, rfl⟩, fun index h => ?_⟩
  rw [← Option.some.inj h]
  rfl

/-- One answer that cannot be folded, and the sweep claims on the stale head. -/
theorem malformed_answer_opens_gate :
    ¬ ∀ (p : InboundPass Rat) (L : EngineLedger Rat) (pub : Hex), p.Reported L pub →
      p.ownChainIsCurrent L pub = false ∧
        ∀ pass, (p.run L pass).getAccountChain pub = L.getAccountChain pub := by
  intro hclaim
  obtain ⟨-, hchain⟩ := hclaim (Sample.inboundPass Sample.spoiledAnswers) Sample.paidLedger "bob"
    (Sample.reported_newerHead (List.mem_cons_self ..))
  have hlength := congrArg List.length (hchain .sweepUnclaimedReceives)
  revert hlength
  decide +kernel

end NeuronWeb
