/-
  Ledger/InOrder: a chain of one account, accepted block by block (`addBlock`).

  `AppendsInOrder` says that the ledger takes the blocks one after the other.  Such a chain
  is linear and signed (`validChain_of_appends`), so when part of it is held the ledger's
  answer to each of its blocks is known: the blocks held are answered with success and
  change nothing, the next one is appended, and the ones after that are refused for their
  parent.
-/
import NeuronWeb.Ledger.Emissions
import NeuronWeb.Ledger.Sample

set_option autoImplicit false

namespace NeuronWeb.EngineLedger

variable {F : Type}

/-! ## Chains -/

/-- The blocks of the account `x`, one after the other, are each appended by `addBlock`. -/
def AppendsInOrder [JsNumber F] (P : Primitives F) (x : Hex) :
    EngineLedger F → List (Block F) → Prop
  | _, [] => True
  | L, b :: rest => b.accountId = x ∧ ∀ now,
      (addBlock P L b now).2 = .success ∧
        (addBlock P L b now).1.getAccountChain x = L.getAccountChain x ++ [b] ∧
        AppendsInOrder P x (addBlock P L b now).1 rest

/-- What such a chain is in itself. -/
structure ValidChain (P : Primitives F) (x : Hex) (chain : List (Block F)) : Prop where
  linear : Linear P x chain
  signed : ∀ b ∈ chain, verifyBlockSignature P b = true
  opens : ∀ b, chain[0]? = some b →
    b.type = .open ∧ b.previousHash = GENESIS_PREV ∧ b.balance = MINT

/-- The ledger holds the blocks `done`, and the account is not frozen. -/
structure Holds (x : Hex) (done : List (Block F)) (L : EngineLedger F) : Prop where
  fresh : done = [] → L.held.get? x = none
  held : done ≠ [] → ∃ h, L.held.get? x = some h ∧ h.chain = done
  notFrozen : L.equivocated.has x = false

/-- The ledger holds the first `k` blocks of the chain and takes the others in order. -/
structure OnPath [JsNumber F] (P : Primitives F) (x : Hex) (chain : List (Block F)) (k : Nat)
    (L : EngineLedger F) : Prop where
  le : k ≤ chain.length
  upTo : L.getAccountChain x = chain.take k
  holds : chain ≠ [] → Holds x (chain.take k) L
  appends : AppendsInOrder P x L (chain.drop k)

section InOrder

variable [JsNumber F] {P : Primitives F} {x : Hex} {L : EngineLedger F}

/-- An appended block is authentic, and it opens or extends the chain of its account. -/
theorem appended_cases {b : Block F} {now : Int} (hsuccess : (addBlock P L b now).2 = .success)
    (hchain : (addBlock P L b now).1.getAccountChain b.accountId =
      L.getAccountChain b.accountId ++ [b]) :
    Authentic P L b ∧ (addBlock P L b now).1.equivocated = L.equivocated ∧
      TakesOn P (L.getAccountChain b.accountId) b ∧
      (L.getAccountChain b.accountId = [] → OpensChain L b) ∧
      ∃ acc, (addBlock P L b now).1.held.get? b.accountId =
        some ⟨L.getAccountChain b.accountId ++ [b], acc⟩ := by
  have outcome := addBlock_outcome P L b now
  generalize addBlock P L b now = result at outcome hsuccess hchain
  cases outcome with
  | unchanged r =>
    exact absurd (congrArg List.length hchain) (by simp)
  | forked h existing error authentic forks => cases hsuccess
  | emptied r authentic opens refused => exact absurd hsuccess refused
  | opened acc authentic opens root =>
    have hempty : L.getAccountChain b.accountId = [] := by
      rw [getAccountChain, opens.fresh]
      rfl
    have hsame := appendForeign_sameConsensus P (L.hold b.accountId ⟨[], []⟩) ⟨[], []⟩ acc b now
    refine ⟨authentic, hsame.equivocated, ⟨authentic.hash, ?_, ?_⟩, fun _ => opens, acc, ?_⟩
    · exact fun _ => ⟨opens.index, opens.previousHash⟩
    · intro head hhead
      rw [hempty] at hhead
      cases hhead
    · rw [get?_held_appendForeign, if_pos rfl, hempty]
  | extended h head acc authentic links checked root =>
    have hheld : L.getAccountChain b.accountId = h.chain := getAccountChain_of_held links.stored
    have hsame := appendForeign_sameConsensus P L h acc b now
    refine ⟨authentic, hsame.equivocated, ⟨authentic.hash, ?_, ?_⟩, ?_, acc, ?_⟩
    · intro hnone
      rw [hheld, links.last] at hnone
      cases hnone
    · intro head' hhead'
      rw [hheld, links.last] at hhead'
      cases hhead'
      exact ⟨links.index, links.previousHash⟩
    · intro hempty
      rw [hheld] at hempty
      have hlast := links.last
      rw [hempty] at hlast
      cases hlast
    · rw [get?_held_appendForeign, if_pos rfl, hheld]

theorem validChain_of_appends {done rest : List (Block F)} (hdone : ValidChain P x done)
    (hchain : L.getAccountChain x = done) (happends : AppendsInOrder P x L rest) :
    ValidChain P x (done ++ rest) := by
  induction rest generalizing L done with
  | nil =>
    rw [List.append_nil]
    exact hdone
  | cons b rest ih =>
    obtain ⟨rfl, hadd⟩ := happends
    obtain ⟨hsuccess, hgrown, hrest⟩ := hadd 0
    obtain ⟨authentic, -, next, hopens, -⟩ := appended_cases hsuccess hgrown
    rw [hchain] at hgrown next hopens
    have hnext : ValidChain P b.accountId (done ++ [b]) := by
      refine ⟨hdone.linear.concat rfl next, fun b' hb' => ?_, fun first hfirst => ?_⟩
      · rcases List.mem_append.mp hb' with hold | hnew
        · exact hdone.signed b' hold
        · rw [List.mem_singleton.mp hnew]
          exact authentic.signature
      · cases done with
        | nil =>
          cases hfirst
          have opens := hopens rfl
          exact ⟨opens.type, opens.previousHash, opens.balance⟩
        | cons genesis rest => exact hdone.opens first hfirst
    have hall := ih hnext hgrown hrest
    rwa [List.append_assoc] at hall

variable {chain : List (Block F)} {k : Nat}

theorem onPath_start (hempty : L.getAccountChain x = [])
    (happends : AppendsInOrder P x L chain) : OnPath P x chain 0 L where
  le := Nat.zero_le _
  upTo := hempty
  holds hne := by
    cases chain with
    | nil => exact absurd rfl hne
    | cons b rest =>
      obtain ⟨rfl, hadd⟩ := happends
      obtain ⟨hsuccess, hgrown, -⟩ := hadd 0
      obtain ⟨authentic, -, -, hopens, -⟩ := appended_cases hsuccess hgrown
      exact ⟨fun _ => (hopens hempty).fresh, fun h => absurd rfl h, authentic.notFrozen⟩
  appends := happends

section

variable (h : OnPath P x chain k L)
include h

theorem OnPath.next {b : Block F} (hb : chain[k]? = some b)
    (now : Int) : (addBlock P L b now).2 = .success ∧
      OnPath P x chain (k + 1) (addBlock P L b now).1 := by
  obtain ⟨hk, hget⟩ := List.getElem?_eq_some_iff.mp hb
  have hdrop : chain.drop k = b :: chain.drop (k + 1) := by
    rw [← hget, List.drop_eq_getElem_cons hk]
  have htake : chain.take (k + 1) = chain.take k ++ [b] := by
    rw [List.take_add_one, hb, Option.toList_some]
  have happends := h.appends
  rw [hdrop] at happends
  obtain ⟨rfl, hadd⟩ := happends
  obtain ⟨hsuccess, hgrown, hrest⟩ := hadd now
  obtain ⟨authentic, hequivocated, -, -, acc, hheld⟩ := appended_cases hsuccess hgrown
  rw [h.upTo, ← htake] at hgrown hheld
  refine ⟨hsuccess, hk, hgrown, fun _ => ⟨fun hnil => ?_, fun _ => ⟨_, hheld, rfl⟩, ?_⟩, hrest⟩
  · rw [htake] at hnil
    exact absurd hnil (List.concat_ne_nil b _)
  · rw [hequivocated]
    exact authentic.notFrozen

theorem OnPath.authentic (valid : ValidChain P x chain) {b : Block F}
    (hb : b ∈ chain) (now : Int) : addBlock P L b now =
      if b.index = 0 then addGenesis P L b now else addNext P L b now := by
  have hfrozen : L.equivocated.has b.accountId = false := by
    rw [valid.linear.account b hb]
    exact (h.holds (List.ne_nil_of_mem hb)).notFrozen
  unfold addBlock
  rw [if_neg (not_not.mpr (valid.linear.hash b hb)), valid.signed b hb, hfrozen]
  simp only [Bool.not_true, Bool.false_eq_true, if_false]

theorem OnPath.last (valid : ValidChain P x chain) (hk : 0 < k) :
    ∃ held head, L.held.get? x = some held ∧ held.chain = chain.take k ∧
      held.chain.getLast? = some head ∧ head.index = (k - 1 : Nat) := by
  have hle := h.le
  have hlen : k - 1 < chain.length := by omega
  have hkept : (chain.take k).length = k := List.length_take_of_le h.le
  have hne : chain.take k ≠ [] := by
    intro hnil
    rw [hnil] at hkept
    exact absurd hkept (by simp; omega)
  obtain ⟨held, hheld, hdone⟩ :=
    (h.holds (fun hnil => hne (by rw [hnil, List.take_nil]))).held hne
  have hlast : chain[k - 1]? = some chain[k - 1] := List.getElem?_eq_getElem hlen
  refine ⟨held, chain[k - 1], hheld, hdone, ?_, valid.linear.height _ _ hlast⟩
  rw [hdone, List.getLast?_eq_getElem?, hkept, List.getElem?_take_of_lt (by omega), hlast]

theorem OnPath.known (valid : ValidChain P x chain) {i : Nat}
    {b : Block F} (hb : chain[i]? = some b) (hi : i < k) (now : Int) :
    addBlock P L b now = (L, .success) := by
  have hmem : b ∈ chain := List.mem_of_getElem? hb
  have haccount := valid.linear.account b hmem
  have hindex := valid.linear.height i b hb
  obtain ⟨held, head, hheld, hdone, hlast, hheight⟩ := h.last valid (Nat.zero_lt_of_lt hi)
  have hat : held.chain[i]? = some b := by
    rw [hdone, List.getElem?_take_of_lt hi]
    exact hb
  rw [h.authentic valid hmem]
  cases i with
  | zero =>
    obtain ⟨htype, hprevious, hbalance⟩ := valid.opens b hb
    obtain ⟨rest, hrest⟩ : ∃ rest, held.chain = b :: rest := by
      cases hc : held.chain with
      | nil =>
        rw [hc] at hat
        cases hat
      | cons first rest =>
        rw [hc] at hat
        exact ⟨rest, by rw [Option.some.inj hat]⟩
    rw [if_pos (by omega), addGenesis]
    simp [htype, hprevious, hbalance, haccount, hheld, hrest]
  | succ i =>
    have hle : b.index ≤ head.index := by omega
    have hblock : blockAt held.chain b.index = some b := by
      rw [blockAt, hindex, if_neg (by omega)]
      exact hat
    rw [if_neg (by omega), addNext]
    simp [haccount, hheld, hlast, hle, hblock]

theorem OnPath.early (valid : ValidChain P x chain) {i : Nat}
    {b : Block F} (hb : chain[i]? = some b) (hi : k < i) (now : Int) :
    addBlock P L b now = (L, .failure "missing prior chain") ∨
      addBlock P L b now = (L, .failure "non-sequential") := by
  have hmem : b ∈ chain := List.mem_of_getElem? hb
  have haccount := valid.linear.account b hmem
  have hindex := valid.linear.height i b hb
  rw [h.authentic valid hmem, if_neg (by omega), addNext, haccount]
  by_cases hk : k = 0
  · left
    rw [(h.holds (List.ne_nil_of_mem hmem)).fresh (by rw [hk, List.take_zero])]
  · right
    obtain ⟨held, head, hheld, -, hlast, hheight⟩ := h.last valid (Nat.pos_of_ne_zero hk)
    simp only [hheld, hlast]
    rw [if_neg (by omega), if_pos (by omega)]

end

end InOrder

end NeuronWeb.EngineLedger

/-! ## A chain of any length -/

namespace NeuronWeb.Sample

open EngineLedger

theorem rootMatches_continuing (L : EngineLedger Rat) (content : BlockContent Rat) {h : Held Rat}
    (hacc : accumulatorOf L content.accountId = h.acc) :
    RootMatches primitives h (continuing L content)
      ((h.acc.append (continuing L content).hash).getD []) := by
  obtain ⟨bytes, hbytes⟩ : ∃ bytes, hexToBytes (computeContentHash primitives content) =
      some bytes := ⟨_, hexToBytes_bytesToHex _⟩
  constructor <;> simp [continuing, AccountAccumulator.append, hbytes, hacc]

theorem accountId_header (L : EngineLedger Rat) (pub : Hex) : (header L pub).accountId = pub := by
  unfold header
  split <;> rfl

/-- The account can go on. -/
structure Continues (pub : Hex) (L : EngineLedger Rat) : Prop where
  notFrozen : L.equivocated.has pub = false
  head : ∀ h, L.held.get? pub = some h → ∃ head, h.chain.getLast? = some head ∧ 0 ≤ head.index

/-- The ledger appends the block with which its account goes on. -/
theorem addBlock_continuing {L : EngineLedger Rat} {pub : Hex} (h : Continues pub L) (now : Int) :
    (addBlock primitives L (continuing L (header L pub)) now).2 = .success ∧
      (addBlock primitives L (continuing L (header L pub)) now).1.held.get? pub =
        some ⟨L.getAccountChain pub ++ [continuing L (header L pub)],
          ((accumulatorOf L pub).append (continuing L (header L pub)).hash).getD []⟩ := by
  have hverified := verifyBlock_continuing L (header L pub)
  have haccount := accountId_header L pub
  rw [verifyBlock_iff] at hverified
  have hauthentic : addBlock primitives L (continuing L (header L pub)) now =
      if (header L pub).index = 0 then addGenesis primitives L (continuing L (header L pub)) now
      else addNext primitives L (continuing L (header L pub)) now := by
    have hfrozen : L.equivocated.has (continuing L (header L pub)).accountId = false := by
      rw [show (continuing L (header L pub)).accountId = pub from haccount]
      exact h.notFrozen
    unfold addBlock
    rw [if_neg (not_not.mpr hverified.1), hverified.2, hfrozen]
    rfl
  have hcommit : ∀ {L' : EngineLedger Rat} {h : Held Rat}, accumulatorOf L pub = h.acc →
      h.chain = L.getAccountChain pub →
      (commitBlock primitives L' h (continuing L (header L pub)) now).2 = .success ∧
      (commitBlock primitives L' h (continuing L (header L pub)) now).1.held.get? pub =
        some ⟨L.getAccountChain pub ++ [continuing L (header L pub)],
          ((accumulatorOf L pub).append (continuing L (header L pub)).hash).getD []⟩ := by
    intro L' h hacc hchain
    rw [← haccount] at hacc
    have hroot := rootMatches_continuing L (header L pub) hacc
    unfold commitBlock
    rw [hroot.append]
    simp only [hroot.root, ne_eq, not_true_eq_false, if_false, true_and]
    have hself : (continuing L (header L pub)).accountId = pub := haccount
    rw [get?_held_appendForeign, if_pos hself, hchain, ← hacc, haccount]
  rw [hauthentic]
  cases hget : L.held.get? pub with
  | none =>
    have hheader : header L pub =
        { accountId := pub, index := 0, type := .open, previousHash := GENESIS_PREV, shard := 0,
          timestamp := 0, balance := MINT } := by
      simp [header, getAccountHead, getAccountChain, hget]
    have hopen : addGenesis primitives L (continuing L (header L pub)) now =
        commitBlock primitives (L.hold pub ⟨[], []⟩) ⟨[], []⟩ (continuing L (header L pub))
          now := by
      simp [addGenesis, continuing, hheader, hget]
    rw [if_pos (by rw [hheader]), hopen]
    exact hcommit (by simp [accumulatorOf, hget]) (by simp [getAccountChain, hget])
  | some held =>
    obtain ⟨head, hhead, hindex⟩ := h.head held hget
    have hheader : header L pub = nextContent head pub .update 0 head.balance := by
      simp [header, getAccountHead, getAccountChain, hget, hhead]
    have hnext : addNext primitives L (continuing L (header L pub)) now =
        commitBlock primitives L held (continuing L (header L pub)) now := by
      simp [addNext, continuing, hheader, nextContent, hget, hhead, checkBlock]
    rw [if_neg (by rw [hheader]; simp [nextContent]; omega), hnext]
    exact hcommit (by simp [accumulatorOf, hget]) (by simp [getAccountChain, hget])

/-- The next blocks of an account. -/
def continuation (pub : Hex) : Nat → EngineLedger Rat → List (Block Rat)
  | 0, _ => []
  | n + 1, L =>
    let block := continuing L (header L pub)
    block :: continuation pub n (addBlock primitives L block 0).1

theorem Continues.next {L : EngineLedger Rat} {pub : Hex} (h : Continues pub L) (now : Int) :
    Continues pub (addBlock primitives L (continuing L (header L pub)) now).1 := by
  obtain ⟨hsuccess, hheld⟩ := addBlock_continuing h now
  have hself : (continuing L (header L pub)).accountId = pub := accountId_header L pub
  obtain ⟨-, hequivocated, -⟩ := appended_cases hsuccess (by
    rw [hself, getAccountChain_of_held hheld])
  refine ⟨by rw [hequivocated]; exact h.notFrozen, fun held hget => ?_⟩
  rw [hheld] at hget
  cases hget
  refine ⟨_, List.getLast?_concat .., ?_⟩
  show 0 ≤ (header L pub).index
  unfold header
  split
  · rename_i head hhead
    cases hget : L.held.get? pub with
    | none => simp [getAccountHead, getAccountChain, hget] at hhead
    | some held =>
      obtain ⟨head', hhead', hindex⟩ := h.head held hget
      have heq : head' = head := by
        simpa [getAccountHead, getAccountChain, hget, hhead'] using hhead
      rw [← heq]
      simp only [nextContent]
      omega
  · exact le_refl 0

theorem continuation_congr (pub : Hex) (n : Nat) {L L' : EngineLedger Rat} (h : Continues pub L)
    (h' : Continues pub L') (hheld : L.held.get? pub = L'.held.get? pub) :
    continuation pub n L = continuation pub n L' := by
  induction n generalizing L L' with
  | zero => rfl
  | succ n ih =>
    have hheader : header L pub = header L' pub := by
      simp only [header, getAccountHead, getAccountChain, hheld]
    have hblock : continuing L (header L pub) = continuing L' (header L' pub) := by
      rw [← hheader]
      simp only [continuing, accumulatorOf, accountId_header, hheld]
    have hafter := (addBlock_continuing h 0).2
    have hafter' := (addBlock_continuing h' 0).2
    simp only [continuation]
    rw [hblock] at hafter ⊢
    have hnext := h.next 0
    rw [hblock] at hnext
    rw [ih hnext (h'.next 0)]
    rw [hafter, hafter']
    simp only [getAccountChain, accumulatorOf, hheld]

theorem appendsInOrder_continuation (pub : Hex) (n : Nat) {L : EngineLedger Rat}
    (h : Continues pub L) : AppendsInOrder primitives pub L (continuation pub n L) := by
  induction n generalizing L with
  | zero => trivial
  | succ n ih =>
    refine ⟨accountId_header L pub, fun now => ?_⟩
    obtain ⟨hsuccess, hheld⟩ := addBlock_continuing h now
    refine ⟨hsuccess, by rw [getAccountChain_of_held hheld], ?_⟩
    rw [continuation_congr pub n (h.next 0) (h.next now)
      ((addBlock_continuing h 0).2.trans hheld.symm)]
    exact ih (h.next now)

end NeuronWeb.Sample
