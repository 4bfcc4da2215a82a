/-
  Ledger/Coherence: chains that one ledger could have created.

  `Continues` is what a created block keeps towards its own chain, `Coherent` adds what holds
  across the chains: every claim has its source, every token its mint, and a token takes at most
  one step away from its minter.
-/
import NeuronWeb.Ledger.Records
import NeuronWeb.Ledger.TokenIdentity

set_option autoImplicit false

namespace NeuronWeb.EngineLedger

variable {F : Type}

/-! ## One chain -/

/-- Behind `pre` the account may give the token away or burn it. -/
structure MayPart (tokenId : Hex) (pre : List (Block F)) : Prop where
  holds : ∃ index, lastWord tokenId pre = some ⟨index, true⟩
  unburned : ∀ b ∈ pre, b.type = .nftBurn → names tokenId b = false

variable {tokenId : Hex}

theorem MayPart.names {pre : List (Block F)} (h : MayPart tokenId pre) :
    ∃ b ∈ pre, names tokenId b = true := by
  obtain ⟨index, hword⟩ := h.holds
  obtain ⟨b, hb, hsays, _⟩ := exists_of_lastWord hword
  exact ⟨b, hb, names_iff.mpr ⟨_, hsays⟩⟩

/-- The rule of its type that a block created behind `pre`, with the head `head`, keeps. -/
def OwnRule [JsNumber F] (P : Primitives F) (pre : List (Block F)) (head b : Block F) : Prop :=
  match b.type with
  | .update => b.balance = head.balance
  | .send => ∃ amount, b.amount = some amount ∧ 0 < amount ∧
      JsNumber.toBigInt (JsNumber.ofInt amount : F) = some amount ∧
      b.balance = head.balance - amount ∧ 0 ≤ b.balance
  | .receive => ∃ amount, b.amount = some amount ∧ 0 < amount ∧
      b.balance = head.balance + amount
  | .nftMint => b.balance = head.balance ∧ ∃ contentRef, b.contentRef = some contentRef ∧
      contentRef ≠ "" ∧ b.tokenId = some (nftTokenId P b.accountId b.index contentRef) ∧
      ∀ b' ∈ pre, names (nftTokenId P b.accountId b.index contentRef) b' = false
  | .nftSend => b.balance = head.balance ∧ truthy b.recipient = true ∧
      ∃ tokenId, b.tokenId = some tokenId ∧ tokenId ≠ "" ∧ MayPart tokenId pre
  | .nftReceive => b.balance = head.balance ∧ truthy b.tokenId = true ∧
      truthy b.sourceHash = true
  | .nftBurn => b.balance = head.balance ∧
      ∃ tokenId, b.tokenId = some tokenId ∧ tokenId ≠ "" ∧ MayPart tokenId pre
  | _ => False

/-- `b` is what its account `x` may create behind its chain `pre`. -/
structure Continues [JsNumber F] (P : Primitives F) (x : Hex) (pre : List (Block F))
    (b : Block F) : Prop where
  account : b.accountId = x
  keyed : ':' ∉ x.toList
  index : b.index = pre.length
  verified : verifyBlock P b = true
  root : b.accumulatorRoot = AccountAccumulator.rootHex P (leavesOf (pre ++ [b]))
  genesis : pre = [] → b.type = .open ∧ b.previousHash = GENESIS_PREV ∧ b.balance = MINT
  rule : ∀ head, pre.getLast? = some head → b.previousHash = head.hash ∧ OwnRule P pre head b

/-! ## All chains -/

/-- `src` is the transfer that `b` claims. -/
structure Sources (src b : Block F) : Prop where
  named : b.sourceHash = some src.hash
  recipient : src.recipient = some b.accountId
  fits : (b.type = .receive ∧ src.type = .send ∧ src.amount = b.amount) ∨
    (b.type = .nftReceive ∧ src.type = .nftSend ∧ src.tokenId = b.tokenId)

/-- A token stays with its minter, or goes from its mint to one receiver and stays there. -/
inductive TokenPath (tokenId : Hex) (ch : Chains F) : Prop
  | home (minter : Hex) (others : ∀ x, x ≠ minter → ∀ b ∈ ch x, names tokenId b = false)
  | passed (minter receiver : Hex) (mint send receive : Block F)
      (home : (ch minter).filter (names tokenId) = [mint, send])
      (away : (ch receiver).filter (names tokenId) = [receive])
      (others : ∀ x, x ≠ minter → x ≠ receiver → ∀ b ∈ ch x, names tokenId b = false)
      (mint_type : mint.type = .nftMint) (send_type : send.type = .nftSend)
      (receive_type : receive.type = .nftReceive)
      (claims : nftClaim receive = some send.hash)

/-- Every block continues the blocks before it on its chain. -/
def Continuing [JsNumber F] (P : Primitives F) (ch : Chains F) : Prop :=
  ∀ x pre b, pre ++ [b] <+: ch x → Continues P x pre b

/-- Chains that one ledger could have created. -/
structure Coherent [JsNumber F] (P : Primitives F) (ch : Chains F) : Prop where
  continues : Continuing P ch
  sourced : ∀ b, OnChain ch b → b.type = .receive ∨ b.type = .nftReceive →
    ∃ src, OnChain ch src ∧ Sources src b
  minted : ∀ tokenId b, OnChain ch b → names tokenId b = true →
    ∃ mint, OnChain ch mint ∧ mint.type = .nftMint ∧ names tokenId mint = true
  path : ∀ tokenId, TokenPath tokenId ch

theorem eq_of_names_passed {ch : Chains F} {minter receiver : Hex}
    {mint send receive : Block F} (home : (ch minter).filter (names tokenId) = [mint, send])
    (away : (ch receiver).filter (names tokenId) = [receive])
    (others : ∀ x, x ≠ minter → x ≠ receiver → ∀ b ∈ ch x, names tokenId b = false)
    {x : Hex} {b : Block F} (hb : b ∈ ch x) (hnames : names tokenId b = true) :
    (x = minter ∧ (b = mint ∨ b = send)) ∨ (x = receiver ∧ b = receive) := by
  have hfilter : b ∈ (ch x).filter (names tokenId) := List.mem_filter.mpr ⟨hb, hnames⟩
  by_cases hminter : x = minter
  · rw [hminter, home] at hfilter
    exact .inl ⟨hminter, by simpa using hfilter⟩
  · by_cases hreceiver : x = receiver
    · rw [hreceiver, away] at hfilter
      exact .inr ⟨hreceiver, by simpa using hfilter⟩
    · rw [others x hminter hreceiver b hb] at hnames
      cases hnames

theorem eq_of_names_home {ch : Chains F} {minter : Hex}
    (others : ∀ x, x ≠ minter → ∀ b ∈ ch x, names tokenId b = false) {x : Hex} {b : Block F}
    (hb : b ∈ ch x) (hnames : names tokenId b = true) : x = minter := by
  by_contra hne
  rw [others x hne b hb] at hnames
  cases hnames

theorem lastWord_of_passed {chain : List (Block F)} {mint send : Block F}
    (home : chain.filter (names tokenId) = [mint, send]) (send_type : send.type = .nftSend) :
    ∃ index, lastWord tokenId chain = some ⟨index, false⟩ := by
  have hnames : names tokenId send = true :=
    (List.mem_filter.mp (home ▸ List.mem_cons_of_mem mint List.mem_cons_self)).2
  obtain ⟨holds, hsays⟩ := names_iff.mp hnames
  have hsaid := (wordOn_eq_some.mp hsays).2.2
  have hgone : holds = false := by
    unfold said at hsaid
    rw [send_type] at hsaid
    simp only [Option.ite_none_right_eq_some, Option.some.injEq] at hsaid
    exact hsaid.2.symm
  refine ⟨send.index, ?_⟩
  rw [← lastWord_filter, home, show [mint, send] = [mint] ++ [send] from rfl, lastWord_append,
    hsays, hgone]

theorem TokenPath.home_of_burn {ch : Chains F} (h : TokenPath tokenId ch)
    {burn : Block F} (hburn : OnChain ch burn) (htype : burn.type = .nftBurn)
    (hnames : names tokenId burn = true) :
    ∃ minter, ∀ x, ∀ b ∈ ch x, names tokenId b = true → x = minter := by
  cases h with
  | home minter others => exact ⟨minter, fun x b hb hn => eq_of_names_home others hb hn⟩
  | passed minter receiver mint send receive home away others mint_type send_type
      receive_type claims =>
      obtain ⟨x, hx⟩ := hburn
      rcases eq_of_names_passed home away others hx hnames with ⟨_, rfl | rfl⟩ | ⟨_, rfl⟩
      · rw [mint_type] at htype
        cases htype
      · rw [send_type] at htype
        cases htype
      · rw [receive_type] at htype
        cases htype

theorem filter_extend_of_names {ch : Chains F} {b : Block F}
    (h : names tokenId b = false) (x : Hex) :
    (extend ch b x).filter (names tokenId) = (ch x).filter (names tokenId) := by
  unfold extend
  split
  · simp [List.filter_append, h]
  · rfl

theorem TokenPath.extend {ch : Chains F} (h : TokenPath tokenId ch) {b : Block F}
    (hb : names tokenId b = false) : TokenPath tokenId (extend ch b) := by
  have hothers : ∀ x, (∀ b' ∈ ch x, names tokenId b' = false) →
      ∀ b' ∈ EngineLedger.extend ch b x, names tokenId b' = false := by
    intro x hx b' hb'
    rcases mem_extend.mp hb' with hold | ⟨rfl, _⟩
    · exact hx b' hold
    · exact hb
  cases h with
  | home minter others => exact .home minter fun x hx => hothers x (others x hx)
  | passed minter receiver mint send receive home away others mint_type send_type
      receive_type claims =>
      exact .passed minter receiver mint send receive
        ((filter_extend_of_names hb minter).trans home)
        ((filter_extend_of_names hb receiver).trans away)
        (fun x hx hx' => hothers x (others x hx hx')) mint_type send_type receive_type claims

theorem header_of_hash {P : Primitives F} (hP : CollisionFree P) {b b' : Block F}
    (hb : verifyBlock P b = true) (hb' : verifyBlock P b' = true) (hhash : b.hash = b'.hash) :
    b.accountId = b'.accountId ∧ b.index = b'.index := by
  have hcontent := ((verifyBlock_iff P b).mp hb).1
  have hcontent' := ((verifyBlock_iff P b').mp hb').1
  exact hP.header_eq_of_hash_eq (hcontent.trans (hhash.trans hcontent'.symm))

/-! ## What continuing chains determine -/

section Coherent

variable [JsNumber F] {P : Primitives F} {ch : Chains F}

section

variable (h : Continuing P ch)
include h

theorem Continuing.below {ch' : Chains F} (hbelow : ∀ x, ch' x <+: ch x) : Continuing P ch' :=
  fun x pre b hpre => h x pre b (hpre.trans (hbelow x))

theorem Continuing.place {x : Hex} {b : Block F} (hb : b ∈ ch x) :
    ∃ pre, pre ++ [b] <+: ch x ∧ Continues P x pre b := by
  obtain ⟨pre, rest, hsplit⟩ := List.append_of_mem hb
  have hfront : pre ++ [b] <+: ch x := ⟨rest, by rw [hsplit]; simp⟩
  exact ⟨pre, hfront, h x pre b hfront⟩

theorem Continuing.mem_own {b : Block F} (hb : OnChain ch b) : b ∈ ch b.accountId := by
  obtain ⟨x, hx⟩ := hb
  obtain ⟨pre, _, hcont⟩ := h.place hx
  rwa [hcont.account]

theorem Continuing.eq_of_header {b b' : Block F} (hb : OnChain ch b)
    (hb' : OnChain ch b') (haccount : b.accountId = b'.accountId) (hindex : b.index = b'.index) :
    b = b' := by
  obtain ⟨pre, hpre, hcont⟩ := h.place (h.mem_own hb)
  obtain ⟨pre', hpre', hcont'⟩ := h.place (h.mem_own hb')
  rw [← haccount] at hpre'
  have hlength : pre.length = pre'.length := by
    have := hcont.index
    have := hcont'.index
    omega
  have heq : pre ++ [b] = pre' ++ [b'] :=
    (List.prefix_of_prefix_length_le hpre hpre' (by simp [hlength])).eq_of_length
      (by simp [hlength])
  exact (List.cons.inj (List.append_inj heq hlength).2).1

theorem Continuing.eq_of_hash (hP : CollisionFree P) {b b' : Block F}
    (hb : OnChain ch b) (hb' : OnChain ch b') (hhash : b.hash = b'.hash) : b = b' := by
  obtain ⟨_, _, hcont⟩ := h.place (h.mem_own hb)
  obtain ⟨_, _, hcont'⟩ := h.place (h.mem_own hb')
  obtain ⟨haccount, hindex⟩ := header_of_hash hP hcont.verified hcont'.verified hhash
  exact h.eq_of_header hb hb' haccount hindex

theorem Continuing.next (hP : CollisionFree P) {b : Block F}
    (hb : Continues P b.accountId (ch b.accountId) b) : Next ch b := by
  have hbelow : ∀ b' ∈ ch b.accountId, b'.index < b.index := by
    intro b' hb'
    obtain ⟨pre, hpre, hcont⟩ := h.place hb'
    have hlength := hpre.length_le
    rw [hcont.index, hb.index]
    rw [List.length_append, List.length_singleton] at hlength
    omega
  refine ⟨fun b' hb' hhash => ?_, hbelow⟩
  obtain ⟨pre, _, hcont⟩ := h.place (h.mem_own hb')
  obtain ⟨haccount, hindex⟩ := header_of_hash hP hcont.verified hb.verified hhash
  have hlt := hbelow b' (haccount ▸ h.mem_own hb')
  omega

end

theorem Continues.ownRule {x : Hex} {pre : List (Block F)} {b : Block F}
    (h : Continues P x pre b) (htype : b.type ≠ .open) :
    ∃ head, pre.getLast? = some head ∧ OwnRule P pre head b := by
  cases hlast : pre.getLast? with
  | none => exact absurd (h.genesis (List.getLast?_eq_none_iff.mp hlast)).1 htype
  | some head => exact ⟨head, rfl, (h.rule head hlast).2⟩

theorem Continues.mint {x tokenId : Hex} {pre : List (Block F)} {b : Block F}
    (h : Continues P x pre b) (htype : b.type = .nftMint) (hnames : names tokenId b = true) :
    ∃ contentRef, tokenId = nftTokenId P x pre.length contentRef ∧
      ∀ b' ∈ pre, names tokenId b' = false := by
  obtain ⟨head, _, hrule⟩ := h.ownRule (by simp [htype])
  unfold OwnRule at hrule
  simp only [htype] at hrule
  obtain ⟨_, contentRef, _, _, htoken, hfresh⟩ := hrule
  have heq : tokenId = nftTokenId P b.accountId b.index contentRef := by
    have := (tokenId_of_names hnames).1
    rw [htoken] at this
    exact (Option.some.inj this).symm
  refine ⟨contentRef, by rw [heq, h.account, h.index], fun b' hb' => ?_⟩
  rw [heq]
  exact hfresh b' hb'

theorem Coherent.mint_unique (h : Coherent P ch) (hP : CollisionFree P) {tokenId : Hex}
    {b b' : Block F} (hb : OnChain ch b) (hb' : OnChain ch b') (htype : b.type = .nftMint)
    (htype' : b'.type = .nftMint) (hnames : names tokenId b = true)
    (hnames' : names tokenId b' = true) : b = b' := by
  obtain ⟨pre, _, hcont⟩ := h.continues.place (h.continues.mem_own hb)
  obtain ⟨pre', _, hcont'⟩ := h.continues.place (h.continues.mem_own hb')
  obtain ⟨contentRef, heq, _⟩ := hcont.mint htype hnames
  obtain ⟨contentRef', heq', _⟩ := hcont'.mint htype' hnames'
  obtain ⟨haccount, hlength, -⟩ :=
    nftTokenId_inj hP hcont.keyed hcont'.keyed (heq.symm.trans heq')
  refine h.continues.eq_of_header hb hb' haccount ?_
  rw [hcont.index, hcont'.index, hlength]

/-! ## One more block -/

/-- What makes a block fit behind coherent chains. -/
structure Fits (P : Primitives F) (ch : Chains F) (b : Block F) : Prop where
  continues : Continues P b.accountId (ch b.accountId) b
  sourced : b.type = .receive ∨ b.type = .nftReceive → ∃ src, OnChain ch src ∧ Sources src b
  minted : ∀ tokenId, names tokenId b = true → b.type = .nftMint ∨
    ∃ mint, OnChain ch mint ∧ mint.type = .nftMint ∧ names tokenId mint = true
  path : ∀ tokenId, names tokenId b = true → TokenPath tokenId (extend ch b)

theorem Coherent.extend (h : Coherent P ch) {b : Block F} (hb : Fits P ch b) :
    Coherent P (extend ch b) := by
  refine ⟨fun x pre b' hpre => ?_, fun b' hb' htype => ?_, fun t b' hb' hnames => ?_, fun t => ?_⟩
  · unfold EngineLedger.extend at hpre
    split at hpre
    · rename_i hx
      rcases List.prefix_concat_iff.mp hpre with hall | hold
      · obtain ⟨rfl, hsame⟩ := List.append_inj' hall rfl
        cases hsame
        exact hx ▸ hb.continues
      · exact h.continues x pre b' hold
    · exact h.continues x pre b' hpre
  · rcases onChain_extend.mp hb' with hold | rfl
    · obtain ⟨src, hsrc, hsources⟩ := h.sourced b' hold htype
      exact ⟨src, onChain_extend.mpr (.inl hsrc), hsources⟩
    · obtain ⟨src, hsrc, hsources⟩ := hb.sourced htype
      exact ⟨src, onChain_extend.mpr (.inl hsrc), hsources⟩
  · rcases onChain_extend.mp hb' with hold | rfl
    · obtain ⟨mint, hmint, hfacts⟩ := h.minted t b' hold hnames
      exact ⟨mint, onChain_extend.mpr (.inl hmint), hfacts⟩
    · rcases hb.minted t hnames with htype | ⟨mint, hmint, hfacts⟩
      · exact ⟨b', onChain_extend.mpr (.inr rfl), htype, hnames⟩
      · exact ⟨mint, onChain_extend.mpr (.inl hmint), hfacts⟩
  · cases hnames : names t b with
    | true => exact hb.path t hnames
    | false => exact (h.path t).extend hnames

theorem coherent_nil (P : Primitives F) : Coherent P fun _ => ([] : List (Block F)) where
  continues x pre b h := by simp at h
  sourced b h := by simp [OnChain] at h
  minted t b h := by simp [OnChain] at h
  path t := .home "" fun x _ b hb => by simp at hb

end Coherent

end NeuronWeb.EngineLedger
