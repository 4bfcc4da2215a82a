/-
  Consensus/ConflictResolver: optimistic confirmation with votes on forks
  (`engine/consensus/vote.ts`).

  A block is confirmed when it is registered, unless it forks a registered one; then its
  group needs votes, and `resolve` decides it.  `resolve` deletes the group it decides and
  leaves `blockGroup` as it was.  What is registered or voted under the key afterwards meets
  no group: a vote throws, and a sibling is confirmed as if it were the first
  (`one_sibling_confirmed_iff`).
-/
import NeuronWeb.Consensus.Finality
import NeuronWeb.Foundation.Run

set_option autoImplicit false

namespace NeuronWeb

variable {F : Type}

/-! ## The resolver -/

structure WeightedVote (F : Type) where
  blockHash : Hex
  voterId : Hex
  weight : F

structure Equivocation where
  voterId : Hex
  groupKey : String
  blockA : Hex
  blockB : Hex

inductive VoteOutcome where
  | counted
  | notCounted (equivocation : Option Equivocation)
  /-- The call throws. -/
  | thrown

structure ResolveOptions (F : Type) where
  /-- Fraction of the participating weight that finalizes early. -/
  threshold : Option F := none
  /-- Force the resolution: the block with the highest weight wins. -/
  timedOut : Bool := false

inductive BlockStatus where
  | confirmed
  | rejected
  | conflict
  | pending
  deriving DecidableEq, Repr

structure ConflictGroup (F : Type) where
  blocks : JsSet Hex
  tally : JsMap Hex F
  voterChoice : JsMap Hex Hex

structure ConflictResolver (F : Type) where
  confirmed : JsSet Hex
  rejected : JsSet Hex
  /-- Block hash to group key. -/
  blockGroup : JsMap Hex String
  groups : JsMap String (ConflictGroup F)
  equivocs : List Equivocation

namespace ConflictResolver

/-- `new ConflictResolver()`. -/
def new : ConflictResolver F := ⟨.empty, .empty, .empty, .empty, []⟩

section Calls

variable [JsNumber F] (s : ConflictResolver F)

/-- Every block of a fork gets a tally. -/
def startTally (tally : JsMap Hex F) (blocks : List Hex) : JsMap Hex F :=
  blocks.foldl (fun tally h => if tally.has h then tally else tally.set h (JsNumber.ofInt 0)) tally

/-- Register a block; optimistically confirmed unless it forks an existing one. -/
def register (blockHash accountId previousHash : Hex) : ConflictResolver F × BlockStatus :=
  if s.confirmed.has blockHash then (s, .confirmed)
  else if s.rejected.has blockHash then (s, .conflict)
  else
    let key := groupKey accountId previousHash
    let g := (s.groups.get? key).getD ⟨.empty, .empty, .empty⟩
    let blocks := JsSet.add g.blocks blockHash
    let blockGroup := s.blockGroup.set blockHash key
    if blocks.keys.length = 1 then
      ({ s with
          blockGroup
          groups := s.groups.set key { g with blocks }
          confirmed := JsSet.add s.confirmed blockHash }, .confirmed)
    else
      -- the fork revokes the optimistic confirmations
      ({ s with
          blockGroup
          groups := s.groups.set key { g with blocks, tally := startTally g.tally blocks.keys }
          confirmed := s.confirmed.deleteAll blocks.keys }, .conflict)

/-- Cast a weighted vote; only matters for blocks in conflict. -/
def vote (v : WeightedVote F) : ConflictResolver F × VoteOutcome :=
  match s.blockGroup.get? v.blockHash with
  | none => (s, .notCounted none)
  | some key =>
    match s.groups.get? key with
    | none => (s, .thrown)
    | some g =>
      if g.blocks.keys.length < 2 then (s, .notCounted none)
      else
        match g.voterChoice.get? v.voterId with
        | some prev =>
          if prev = v.blockHash then (s, .notCounted none)
          else
            let equivocation := ⟨v.voterId, key, prev, v.blockHash⟩
            ({ s with equivocs := s.equivocs ++ [equivocation] },
              .notCounted (some equivocation))
        | none =>
          let weight :=
            JsNumber.add ((g.tally.get? v.blockHash).getD (JsNumber.ofInt 0)) v.weight
          ({ s with
              groups := s.groups.set key
                { g with
                  voterChoice := g.voterChoice.set v.voterId v.blockHash
                  tally := g.tally.set v.blockHash weight } }, .counted)

/-- The loop over a tally. -/
structure Leader (F : Type) where
  winner : Hex
  best : F
  total : F

def leader (tally : JsMap Hex F) : Leader F :=
  tally.entries.foldl
    (fun l entry =>
      let total := JsNumber.add l.total entry.2
      if JsNumber.lt l.best entry.2 then ⟨entry.1, entry.2, total⟩ else { l with total })
    ⟨"", JsNumber.ofInt (-1), JsNumber.ofInt 0⟩

/-- `DEFAULT_THRESHOLD`. -/
def DEFAULT_THRESHOLD : F := JsNumber.div (JsNumber.ofInt 2) (JsNumber.ofInt 3)

/-- The votes decide, or the time that is over does. -/
def decides (opts : ResolveOptions F) (l : Leader F) : Bool :=
  let threshold := opts.threshold.getD DEFAULT_THRESHOLD
  JsNumber.lt (JsNumber.ofInt 0) l.total && JsNumber.le threshold (JsNumber.div l.best l.total) ||
    opts.timedOut && JsNumber.lt (JsNumber.ofInt 0) l.best

/-- What `resolve` answers. -/
structure Resolution where
  confirmed : List Hex := []
  rejected : List Hex := []

/-- One turn of the loop of `resolve`. -/
def resolveGroup (opts : ResolveOptions F) (acc : ConflictResolver F × Resolution)
    (entry : String × ConflictGroup F) : ConflictResolver F × Resolution :=
  let (s, out) := acc
  let (key, g) := entry
  let l := leader g.tally
  if g.blocks.keys.length < 2 ∨ decides opts l = false then acc
  else
    let losers := g.blocks.keys.filter (· ≠ l.winner)
    ({ s with
        confirmed := JsSet.add s.confirmed l.winner
        rejected := JsSet.addAll s.rejected losers
        groups := s.groups.delete key },
      ⟨out.confirmed ++ [l.winner], out.rejected ++ losers⟩)

/-- Resolve every conflict that has met the threshold or, when timed out, has any votes. -/
def resolve (opts : ResolveOptions F) : ConflictResolver F × Resolution :=
  s.groups.entries.foldl (resolveGroup opts) (s, {})

def status (blockHash : Hex) : BlockStatus :=
  if s.confirmed.has blockHash then .confirmed
  else if s.rejected.has blockHash then .rejected
  else
    match (s.blockGroup.get? blockHash).bind s.groups.get? with
    | some g => if 1 < g.blocks.keys.length then .conflict else .pending
    | none => .pending

/-- The public calls that change the resolver. -/
inductive Call (F : Type) where
  | register (blockHash accountId previousHash : Hex)
  | vote (v : WeightedVote F)
  | resolve (opts : ResolveOptions F)

def step (s : ConflictResolver F) : Call F → ConflictResolver F
  | .register blockHash accountId previousHash => (s.register blockHash accountId previousHash).1
  | .vote v => (s.vote v).1
  | .resolve opts => (s.resolve opts).1

/-- The call throws. -/
def Throws (s : ConflictResolver F) : Call F → Prop
  | .vote v => (s.vote v).2 = .thrown
  | _ => False

end Calls

/-! ## What the claims of a resolver are -/

/-- No two siblings are confirmed. -/
def OneConfirmed (s : ConflictResolver F) : Prop :=
  ∀ key h h', s.blockGroup.get? h = some key → s.blockGroup.get? h' = some key →
    s.confirmed.has h = true → s.confirmed.has h' = true → h = h'

/-- A group was resolved under the key: blocks of it are known, and the group is gone. -/
def Decided (s : ConflictResolver F) (key : String) : Prop :=
  s.groups.get? key = none ∧ ∃ h, s.blockGroup.get? h = some key

/-- The call does not come late: no vote for a block of a decided group, and no new block
under the key of one. -/
def Timely (s : ConflictResolver F) : Call F → Prop
  | .register blockHash accountId previousHash =>
    s.confirmed.has blockHash = true ∨ s.rejected.has blockHash = true ∨
      ¬s.Decided (groupKey accountId previousHash)
  | .vote v => ∀ key, s.blockGroup.get? v.blockHash = some key → ¬s.Decided key
  | .resolve _ => True

/-- A block is registered under one account and predecessor: its hash covers both. -/
def Consistent (s : ConflictResolver F) : Call F → Prop
  | .register blockHash accountId previousHash =>
    ∀ key, s.blockGroup.get? blockHash = some key → key = groupKey accountId previousHash
  | _ => True

/-! ## The groups -/

/-- A group that has not been resolved: its lone block is confirmed, or none of it is. -/
structure Standing (s : ConflictResolver F) (g : ConflictGroup F) : Prop where
  nonempty : ∃ h, g.blocks.has h = true
  lone : g.blocks.keys.length < 2 → ∀ h, g.blocks.has h = true →
    s.confirmed.has h = true ∧ s.rejected.has h = false
  fork : ¬g.blocks.keys.length < 2 → ∀ h, g.blocks.has h = true →
    s.confirmed.has h = false ∧ s.rejected.has h = false
  tallied : ∀ h, g.tally.has h = true → g.blocks.has h = true

/-- A resolved group has one winner, and the others are rejected. -/
def Verdict (s : ConflictResolver F) (key : String) (winner : Hex) : Prop :=
  s.blockGroup.get? winner = some key ∧ ∀ h, s.blockGroup.get? h = some key →
    (s.confirmed.has h = true ↔ h = winner) ∧ (s.rejected.has h = true ↔ h ≠ winner)

/-- The books of the resolver agree about a key. -/
structure IntactAt (s : ConflictResolver F) (key : String) : Prop where
  members : ∀ g, s.groups.get? key = some g → ∀ h,
    g.blocks.has h = true ↔ s.blockGroup.get? h = some key
  standing : ∀ g, s.groups.get? key = some g → Standing s g
  decided : s.Decided key → ∃ winner, Verdict s key winner

/-- The books agree about every key, and every block with a verdict is registered. -/
structure Intact (s : ConflictResolver F) : Prop where
  at_ : ∀ key, IntactAt s key
  known : ∀ h, s.confirmed.has h = true ∨ s.rejected.has h = true →
    ∃ key, s.blockGroup.get? h = some key

/-- The two resolvers say the same of the blocks of a key. -/
structure Agree (s s' : ConflictResolver F) (key : String) : Prop where
  group : s'.groups.get? key = s.groups.get? key
  members : ∀ h, s'.blockGroup.get? h = some key ↔ s.blockGroup.get? h = some key
  verdicts : ∀ h, s.blockGroup.get? h = some key →
    s'.confirmed.has h = s.confirmed.has h ∧ s'.rejected.has h = s.rejected.has h

section Groups

variable {s s' s'' : ConflictResolver F} {key : String}

theorem Agree.refl (s : ConflictResolver F) (key : String) : Agree s s key :=
  ⟨rfl, fun _ => Iff.rfl, fun _ _ => ⟨rfl, rfl⟩⟩

theorem Agree.trans (h : Agree s s' key) (h' : Agree s' s'' key) : Agree s s'' key where
  group := h'.group.trans h.group
  members b := (h'.members b).trans (h.members b)
  verdicts b hb := by
    obtain ⟨hconfirmed, hrejected⟩ := h.verdicts b hb
    obtain ⟨hconfirmed', hrejected'⟩ := h'.verdicts b ((h.members b).mpr hb)
    exact ⟨hconfirmed'.trans hconfirmed, hrejected'.trans hrejected⟩

theorem Agree.decided (h : Agree s s' key) : s'.Decided key ↔ s.Decided key := by
  unfold Decided
  rw [h.group]
  simp only [h.members]

theorem IntactAt.of_agree (hs : IntactAt s key) (h : Agree s s' key) : IntactAt s' key where
  members g hg b := by
    rw [h.members b]
    exact hs.members g (h.group ▸ hg) b
  standing g hg := by
    rw [h.group] at hg
    have hstanding := hs.standing g hg
    have hverdict : ∀ b, g.blocks.has b = true →
        s'.confirmed.has b = s.confirmed.has b ∧ s'.rejected.has b = s.rejected.has b :=
      fun b hb => h.verdicts b ((hs.members g hg b).mp hb)
    refine ⟨hstanding.nonempty, fun hlone b hb => ?_, fun hfork b hb => ?_, hstanding.tallied⟩
    · rw [(hverdict b hb).1, (hverdict b hb).2]
      exact hstanding.lone hlone b hb
    · rw [(hverdict b hb).1, (hverdict b hb).2]
      exact hstanding.fork hfork b hb
  decided hdecided := by
    obtain ⟨winner, hwinner, hothers⟩ := hs.decided (h.decided.mp hdecided)
    refine ⟨winner, (h.members winner).mpr hwinner, fun b hb => ?_⟩
    have hb' := (h.members b).mp hb
    rw [(h.verdicts b hb').1, (h.verdicts b hb').2]
    exact hothers b hb'

theorem keys_length_lt_two_iff (blocks : JsSet Hex) : blocks.keys.length < 2 ↔
    ∀ h h', blocks.has h = true → blocks.has h' = true → h = h' := by
  have hnodup : blocks.keys.Nodup := blocks.nodup
  simp only [JsSet.has_iff_mem_keys]
  constructor
  · intro hlen h h' hmem hmem'
    rcases hkeys : blocks.keys with _ | ⟨b, _ | ⟨b', rest⟩⟩
    · rw [hkeys] at hmem
      cases hmem
    · rw [hkeys, List.mem_singleton] at hmem hmem'
      rw [hmem, hmem']
    · rw [hkeys] at hlen
      simp only [List.length_cons] at hlen
      omega
  · intro hsame
    rcases hkeys : blocks.keys with _ | ⟨b, _ | ⟨b', rest⟩⟩
    · simp
    · simp
    · rw [hkeys] at hnodup hsame
      have heq := hsame b b' List.mem_cons_self (List.mem_cons_of_mem _ List.mem_cons_self)
      rw [heq] at hnodup
      exact absurd List.mem_cons_self (List.nodup_cons.mp hnodup).1

theorem Intact.oneConfirmed (hs : Intact s) : OneConfirmed s := by
  intro key h h' hkey hkey' hconfirmed hconfirmed'
  cases hgroup : s.groups.get? key with
  | none =>
    obtain ⟨winner, -, hothers⟩ := (hs.at_ key).decided ⟨hgroup, h, hkey⟩
    rw [(hothers h hkey).1.mp hconfirmed, (hothers h' hkey').1.mp hconfirmed']
  | some g =>
    have hmember := ((hs.at_ key).members g hgroup h).mpr hkey
    have hmember' := ((hs.at_ key).members g hgroup h').mpr hkey'
    by_cases hlone : g.blocks.keys.length < 2
    · exact (keys_length_lt_two_iff g.blocks).mp hlone h h' hmember hmember'
    · -- in a fork nothing is confirmed
      rw [(((hs.at_ key).standing g hgroup).fork hlone h hmember).1] at hconfirmed
      cases hconfirmed

theorem intact_new : Intact (new : ConflictResolver F) where
  at_ key :=
    { members := fun g hg => by cases hg
      standing := fun g hg => by cases hg
      decided := fun hdecided => by
        obtain ⟨-, h, hh⟩ := hdecided
        cases hh }
  known h hverdict := by rcases hverdict with hc | hr; cases hc; cases hr

end Groups

/-! ## Registering -/

theorem has_deleteAll (m : JsSet Hex) (ks : List Hex) (h : Hex) :
    (m.deleteAll ks).has h = (m.has h && !decide (h ∈ ks)) := by
  unfold JsMap.has
  rw [JsMap.get?_deleteAll]
  by_cases hmem : h ∈ ks <;> simp [hmem]

section Register

variable [JsNumber F] {s : ConflictResolver F} {key : String} {b accountId previousHash : Hex}

theorem has_startTally (blocks : List Hex) (tally : JsMap Hex F) (h : Hex) :
    (startTally tally blocks).has h = true ↔ h ∈ blocks ∨ tally.has h = true := by
  induction blocks generalizing tally with
  | nil => simp [startTally]
  | cons b rest ih =>
    have hfold : startTally tally (b :: rest) =
        startTally (if tally.has b then tally else tally.set b (JsNumber.ofInt 0)) rest := rfl
    rw [hfold, ih, List.mem_cons]
    split
    · rename_i hb
      constructor
      · rintro (hmem | htally)
        · exact .inl (.inr hmem)
        · exact .inr htally
      · rintro ((rfl | hmem) | htally)
        · exact .inr hb
        · exact .inl hmem
        · exact .inr htally
    · rw [JsMap.has_set, Bool.or_eq_true, decide_eq_true_eq]
      constructor
      · rintro (hmem | rfl | htally)
        · exact .inl (.inr hmem)
        · exact .inl (.inl rfl)
        · exact .inr htally
      · rintro ((rfl | hmem) | htally)
        · exact .inr (.inl rfl)
        · exact .inl hmem
        · exact .inr (.inr htally)

/-- What `register` does with a block that has no verdict: it opens a group with it, or it
joins a group and leaves it without confirmations. -/
inductive Registers (s : ConflictResolver F) (b : Hex) (key : String) :
    ConflictResolver F → Prop
  | opens (g : ConflictGroup F) (fresh : s.groups.get? key = none)
      (lone : ∀ h, g.blocks.has h = true ↔ h = b) (untallied : g.tally = .empty) :
      Registers s b key
        { s with
          blockGroup := s.blockGroup.set b key
          groups := s.groups.set key g
          confirmed := JsSet.add s.confirmed b }
  | joins (g g' : ConflictGroup F) (stored : s.groups.get? key = some g)
      (blocks : ∀ h, g'.blocks.has h = true ↔ h = b ∨ g.blocks.has h = true)
      (fork : ¬g'.blocks.keys.length < 2)
      (tally : ∀ h, g'.tally.has h = true ↔ g'.blocks.has h = true ∨ g.tally.has h = true) :
      Registers s b key
        { s with
          blockGroup := s.blockGroup.set b key
          groups := s.groups.set key g'
          confirmed := s.confirmed.deleteAll g'.blocks.keys }

theorem register_of_verdict (accountId previousHash : Hex)
    (h : s.confirmed.has b = true ∨ s.rejected.has b = true) :
    (s.register b accountId previousHash).1 = s := by
  unfold register
  rcases h with hconfirmed | hrejected
  · rw [if_pos hconfirmed]
  · split
    · rfl
    · rfl

theorem registers_of_unknown (hs : Intact s) (hconfirmed : s.confirmed.has b = false)
    (hrejected : s.rejected.has b = false) (accountId previousHash : Hex) :
    Registers s b (groupKey accountId previousHash) (s.register b accountId previousHash).1 := by
  unfold register
  rw [hconfirmed, hrejected]
  simp only [Bool.false_eq_true, if_false]
  generalize groupKey accountId previousHash = key
  have hadd : ∀ (blocks : JsSet Hex) (h : Hex),
      (JsSet.add blocks b).has h = true ↔ h = b ∨ blocks.has h = true := by
    intro blocks h
    rw [JsSet.has_add, Bool.or_eq_true, decide_eq_true_eq, eq_comm]
  cases hgroup : s.groups.get? key with
  | none =>
    -- the group is new, and the block is alone in it
    have halone : (JsSet.add (.empty : JsSet Hex) b).keys.length = 1 := rfl
    simp only [Option.getD_none, halone, if_true]
    exact .opens _ hgroup (fun h => by rw [hadd, JsMap.has_empty]; simp) rfl
  | some g =>
    rw [Option.getD_some]
    have hfork : ¬(JsSet.add g.blocks b).keys.length < 2 := by
      intro hlone
      have hsame := (keys_length_lt_two_iff _).mp hlone
      have hstanding := (hs.at_ key).standing g hgroup
      obtain ⟨first, hfirst⟩ := hstanding.nonempty
      have hb : first = b := hsame first b ((hadd _ _).mpr (.inr hfirst)) (JsSet.has_add_self _ _)
      subst hb
      have hbefore : g.blocks.keys.length < 2 := (keys_length_lt_two_iff _).mpr
        fun h h' hh hh' => hsame h h' ((hadd _ _).mpr (.inr hh)) ((hadd _ _).mpr (.inr hh'))
      rw [(hstanding.lone hbefore first hfirst).1] at hconfirmed
      cases hconfirmed
    rw [if_neg (by omega)]
    refine .joins g
      { g with
        blocks := JsSet.add g.blocks b
        tally := startTally g.tally (JsSet.add g.blocks b).keys }
      hgroup (hadd g.blocks) hfork fun h => ?_
    rw [has_startTally, JsSet.has_iff_mem_keys]

omit [JsNumber F] in
theorem Registers.agree {s' : ConflictResolver F} {home : String} (h : Registers s b home s')
    (hs : Intact s) (hhome : ∀ key, s.blockGroup.get? b = some key → key = home)
    (hkey : key ≠ home) : Agree s s' key := by
  have hmembers : ∀ h, (s.blockGroup.set b home).get? h = some key ↔
      s.blockGroup.get? h = some key := by
    intro h
    rw [JsMap.get?_set]
    split
    · rename_i hb
      subst hb
      exact ⟨fun heq => absurd (Option.some.inj heq).symm hkey,
        fun heq => absurd (hhome key heq) hkey⟩
    · exact Iff.rfl
  have hne : ∀ {h : Hex}, s.blockGroup.get? h = some key → h ≠ b := by
    rintro h hh rfl
    exact hkey (hhome key hh)
  cases h with
  | opens g fresh lone untallied =>
    refine ⟨JsMap.get?_set_ne _ _ (Ne.symm hkey), hmembers, fun h hh => ⟨?_, rfl⟩⟩
    rw [JsSet.has_add, decide_eq_false (Ne.symm (hne hh)), Bool.false_or]
  | joins g g' stored blocks fork tally =>
    refine ⟨JsMap.get?_set_ne _ _ (Ne.symm hkey), hmembers, fun h hh => ⟨?_, rfl⟩⟩
    have hnot : h ∉ g'.blocks.keys := by
      rw [← JsSet.has_iff_mem_keys, blocks]
      rintro (heq | hmem)
      · exact hne hh heq
      · rw [((hs.at_ home).members g stored h).mp hmem] at hh
        exact hkey (Option.some.inj hh).symm
    rw [has_deleteAll, decide_eq_false hnot, Bool.not_false, Bool.and_true]

omit [JsNumber F] in
theorem Intact.registers {s' : ConflictResolver F} {home : String} (hs : Intact s)
    (h : Registers s b home s') (hrejected : s.rejected.has b = false)
    (hhome : ∀ key, s.blockGroup.get? b = some key → key = home) (hundecided : ¬s.Decided home) :
    Intact s' := by
  have hmembers : ∀ h, (s.blockGroup.set b home).get? h = some home ↔
      h = b ∨ s.blockGroup.get? h = some home := by
    intro h
    rw [JsMap.get?_set]
    by_cases hb : b = h
    · simp [hb]
    · simp [hb, Ne.symm hb]
  refine ⟨fun key => ?_, fun h' hverdict => ?_⟩
  · by_cases hkey : key = home
    · subst hkey
      cases h with
      | opens g fresh lone untallied =>
        have hgroup : (s.groups.set key g).get? key = some g := JsMap.get?_set_self ..
        refine ⟨fun g' hg' h => ?_, fun g' hg' => ?_, fun hdecided => ?_⟩
        · rw [hgroup] at hg'
          cases hg'
          rw [hmembers, lone]
          -- a key without a group has no blocks yet
          exact ⟨.inl, fun h => h.resolve_right fun hh => hundecided ⟨fresh, _, hh⟩⟩
        · rw [hgroup] at hg'
          cases hg'
          refine ⟨⟨b, (lone b).mpr rfl⟩, fun _ h hh => ?_, fun hfork => ?_, fun h hh => ?_⟩
          · rw [(lone h).mp hh]
            exact ⟨JsSet.has_add_self _ _, hrejected⟩
          · refine absurd ((keys_length_lt_two_iff _).mpr fun h h' hh hh' => ?_) hfork
            rw [(lone h).mp hh, (lone h').mp hh']
          · rw [untallied] at hh
            cases hh
        · rw [hdecided.1] at hgroup
          cases hgroup
      | joins g g' stored blocks fork tally =>
        have hgroup : (s.groups.set key g').get? key = some g' := JsMap.get?_set_self ..
        have hold := (hs.at_ key).members g stored
        have hstanding := (hs.at_ key).standing g stored
        refine ⟨fun g'' hg'' h => ?_, fun g'' hg'' => ?_, fun hdecided => ?_⟩
        · rw [hgroup] at hg''
          cases hg''
          rw [hmembers, blocks, hold]
        · rw [hgroup] at hg''
          cases hg''
          refine ⟨⟨b, (blocks b).mpr (.inl rfl)⟩, fun hlone => absurd hlone fork,
            fun _ h hh => ⟨?_, ?_⟩, fun h hh => ?_⟩
          · show (s.confirmed.deleteAll g'.blocks.keys).has h = false
            rw [has_deleteAll, decide_eq_true ((JsSet.has_iff_mem_keys _ _).mp hh)]
            simp
          · show s.rejected.has h = false
            rcases (blocks h).mp hh with rfl | hmem
            · exact hrejected
            · by_cases hlone : g.blocks.keys.length < 2
              · exact (hstanding.lone hlone h hmem).2
              · exact (hstanding.fork hlone h hmem).2
          · rcases (tally h).mp hh with hmem | htally
            · exact hmem
            · exact (blocks h).mpr (.inr (hstanding.tallied h htally))
        · rw [hdecided.1] at hgroup
          cases hgroup
    · exact (hs.at_ key).of_agree (h.agree hs hhome hkey)
  · -- a verdict that is new is one of the registered block
    by_cases hb : b = h'
    · subst hb
      cases h <;> exact ⟨home, JsMap.get?_set_self ..⟩
    · have hknown : s.confirmed.has h' = true ∨ s.rejected.has h' = true := by
        cases h with
        | opens g fresh lone untallied =>
          refine hverdict.imp_left fun hc => ?_
          rwa [JsSet.has_add, decide_eq_false hb, Bool.false_or] at hc
        | joins g g' stored blocks fork tally =>
          refine hverdict.imp_left fun hc => ?_
          rw [has_deleteAll, Bool.and_eq_true] at hc
          exact hc.1
      obtain ⟨key, hkey⟩ := hs.known h' hknown
      have hkept : (s.blockGroup.set b home).get? h' = some key := by
        rw [JsMap.get?_set_ne _ _ hb]
        exact hkey
      cases h <;> exact ⟨key, hkept⟩

end Register

/-! ## Voting -/

section Vote

variable [JsNumber F] {s : ConflictResolver F}

/-- A vote changes the tally of a fork, or nothing but the list of equivocations. -/
inductive Votes (s : ConflictResolver F) (v : WeightedVote F) : ConflictResolver F → Prop
  | idle (equivocs : List Equivocation) : Votes s v { s with equivocs }
  | counts (key : String) (g : ConflictGroup F) (choice : JsMap Hex Hex) (weight : F)
      (home : s.blockGroup.get? v.blockHash = some key) (stored : s.groups.get? key = some g) :
      Votes s v
        { s with
          groups := s.groups.set key
            { g with voterChoice := choice, tally := g.tally.set v.blockHash weight } }

theorem vote_cases (s : ConflictResolver F) (v : WeightedVote F) : Votes s v (s.vote v).1 := by
  unfold vote
  split
  · exact .idle s.equivocs
  · rename_i key hhome
    split
    · exact .idle s.equivocs
    · rename_i g hgroup
      split
      · exact .idle s.equivocs
      · split
        · split
          · exact .idle s.equivocs
          · exact .idle _
        · exact .counts key g _ _ hhome hgroup

theorem throws_vote_iff (s : ConflictResolver F) (v : WeightedVote F) :
    (s.vote v).2 = .thrown ↔ ∃ key, s.blockGroup.get? v.blockHash = some key ∧
      s.groups.get? key = none := by
  unfold vote
  split
  · rename_i hhome
    simp [hhome]
  · rename_i key hhome
    split
    · rename_i hgroup
      simp [hhome, hgroup]
    · rename_i g hgroup
      -- with the group at hand every way out returns
      have hreturns : ¬∃ key', s.blockGroup.get? v.blockHash = some key' ∧
          s.groups.get? key' = none := by
        rintro ⟨key', hhome', hgroup'⟩
        rw [hhome] at hhome'
        cases hhome'
        rw [hgroup] at hgroup'
        cases hgroup'
      refine iff_of_false ?_ hreturns
      split
      · simp
      · split
        · split <;> simp
        · simp

theorem Intact.vote (hs : Intact s) (v : WeightedVote F) : Intact (s.vote v).1 := by
  have hcases := vote_cases s v
  generalize (s.vote v).1 = s' at hcases ⊢
  cases hcases with
  | idle equivocs => exact ⟨fun key => ⟨(hs.at_ key).members, fun g hg =>
    { (hs.at_ key).standing g hg with }, (hs.at_ key).decided⟩, hs.known⟩
  | counts key g choice weight home stored =>
    refine ⟨fun key' => ?_, hs.known⟩
    by_cases hkey : key = key'
    · subst hkey
      have hgroup : (s.groups.set key { g with
          voterChoice := choice, tally := g.tally.set v.blockHash weight }).get? key = some _ :=
        JsMap.get?_set_self ..
      have hmembers := (hs.at_ key).members g stored
      have hstanding := (hs.at_ key).standing g stored
      refine ⟨fun g' hg' => ?_, fun g' hg' => ?_, fun hdecided => ?_⟩
      · rw [hgroup] at hg'
        cases hg'
        exact hmembers
      · rw [hgroup] at hg'
        cases hg'
        refine ⟨hstanding.nonempty, hstanding.lone, hstanding.fork, fun h hh => ?_⟩
        rw [JsMap.has_set, Bool.or_eq_true, decide_eq_true_eq] at hh
        rcases hh with rfl | hh
        · exact (hmembers _).mpr home
        · exact hstanding.tallied h hh
      · rw [hdecided.1] at hgroup
        cases hgroup
    · exact (hs.at_ key').of_agree
        ⟨JsMap.get?_set_ne _ _ hkey, fun _ => Iff.rfl, fun _ _ => ⟨rfl, rfl⟩⟩

theorem agree_vote {v : WeightedVote F} {key : String} (hdecided : s.Decided key) :
    Agree s (s.vote v).1 key := by
  have hcases := vote_cases s v
  generalize (s.vote v).1 = s' at hcases ⊢
  cases hcases with
  | idle equivocs => exact ⟨rfl, fun _ => Iff.rfl, fun _ _ => ⟨rfl, rfl⟩⟩
  | counts key' g choice weight home stored =>
    have hne : key' ≠ key := by
      rintro rfl
      rw [hdecided.1] at stored
      cases stored
    exact ⟨JsMap.get?_set_ne _ _ hne, fun _ => Iff.rfl, fun _ _ => ⟨rfl, rfl⟩⟩

end Vote

/-! ## Resolving -/

section Resolve

variable [JsNumber F] [SignedJsNumber F] {s : ConflictResolver F}

/-- When a tally decides, its winner is in it. -/
theorem winner_mem_tally {opts : ResolveOptions F} {tally : JsMap Hex F}
    (hdecides : decides opts (leader tally) = true) :
    tally.has (leader tally).winner = true := by
  -- as long as no entry leads, no sum of the weights is positive
  have hloop : ∀ (entries : List (Hex × F)) (l : Leader F) (ks : List Hex),
      (l.winner ∈ ks ∨ l.best = JsNumber.ofInt (-1) ∧
        JsNumber.lt (JsNumber.ofInt 0) l.total = false) →
      let l' := entries.foldl
        (fun l entry =>
          let total := JsNumber.add l.total entry.2
          if JsNumber.lt l.best entry.2 then ⟨entry.1, entry.2, total⟩ else { l with total }) l
      l'.winner ∈ ks ++ entries.map Prod.fst ∨ l'.best = JsNumber.ofInt (-1) ∧
        JsNumber.lt (JsNumber.ofInt 0) l'.total = false := by
    intro entries
    induction entries with
    | nil =>
      intro l ks h
      rw [List.map_nil, List.append_nil]
      exact h
    | cons entry rest ih =>
      intro l ks h
      rw [List.foldl_cons, List.map_cons, List.append_cons]
      refine ih _ _ ?_
      split
      · exact .inl (List.mem_append_right _ (List.mem_singleton_self _))
      · rename_i hlead
        rcases h with hmem | ⟨hbest, htotal⟩
        · exact .inl (List.mem_append_left _ hmem)
        · rw [hbest, Bool.not_eq_true] at hlead
          exact .inr ⟨hbest, SignedJsNumber.add_not_pos _ _ htotal
            (SignedJsNumber.not_pos_of_not_lt _ hlead)⟩
  have hzero : JsNumber.lt (JsNumber.ofInt 0 : F) (JsNumber.ofInt 0) = false :=
    SignedJsNumber.zero_not_pos
  rcases hloop tally.entries ⟨"", JsNumber.ofInt (-1), JsNumber.ofInt 0⟩ [] (.inr ⟨rfl, hzero⟩)
    with hmem | ⟨hbest, htotal⟩
  · obtain ⟨entry, hentry, hfst⟩ := List.mem_map.mp hmem
    exact (JsMap.has_iff _ _).mpr ⟨entry.2, (JsMap.get?_eq_some_iff _ _ _).mpr (hfst ▸ hentry)⟩
  · change (leader tally).best = _ at hbest
    change JsNumber.lt _ (leader tally).total = false at htotal
    simp [decides, htotal, hbest, SignedJsNumber.neg_one_not_pos] at hdecides

omit [JsNumber F] [SignedJsNumber F] in
theorem Agree.status {s' : ConflictResolver F} {key : String} (h : Agree s s' key) {b : Hex}
    (hb : s.blockGroup.get? b = some key) : s'.status b = s.status b := by
  unfold ConflictResolver.status
  rw [(h.verdicts b hb).1, (h.verdicts b hb).2, hb, (h.members b).mpr hb, Option.bind_some,
    Option.bind_some, h.group]

/-- What a turn of the loop does with the group of `key`. -/
inductive Resolves (s : ConflictResolver F) (key : String) (g : ConflictGroup F) :
    ConflictResolver F → List Hex → List Hex → Prop
  | leaves : Resolves s key g s [] []
  | decides (winner : Hex) (fork : ¬g.blocks.keys.length < 2)
      (member : g.tally.has winner = true) :
      Resolves s key g
        { s with
          confirmed := JsSet.add s.confirmed winner
          rejected := JsSet.addAll s.rejected (g.blocks.keys.filter (· ≠ winner))
          groups := s.groups.delete key }
        [winner] (g.blocks.keys.filter (· ≠ winner))

theorem resolveGroup_cases (opts : ResolveOptions F) (s : ConflictResolver F) (out : Resolution)
    (key : String) (g : ConflictGroup F) : ∃ s' confirmed rejected,
      resolveGroup opts (s, out) (key, g) =
        (s', ⟨out.confirmed ++ confirmed, out.rejected ++ rejected⟩) ∧
      Resolves s key g s' confirmed rejected := by
  unfold resolveGroup
  dsimp only
  split
  · exact ⟨s, [], [], by simp, .leaves⟩
  · rename_i hfork
    rw [not_or, Bool.not_eq_false] at hfork
    exact ⟨_, _, _, rfl, .decides _ hfork.1 (winner_mem_tally hfork.2)⟩

variable {s' : ConflictResolver F}

section

omit [JsNumber F] [SignedJsNumber F]

theorem Resolves.agree {key key' : String} {g : ConflictGroup F}
    {confirmed rejected : List Hex} (h : Resolves s key g s' confirmed rejected) (hs : Intact s)
    (stored : s.groups.get? key = some g) (hkey : key' ≠ key) : Agree s s' key' := by
  cases h with
  | leaves => exact .refl s key'
  | decides winner fork member =>
    have hmembers := (hs.at_ key).members g stored
    have hother : ∀ {b : Hex}, s.blockGroup.get? b = some key' → g.blocks.has b = false := by
      intro b hb
      rw [Bool.eq_false_iff]
      intro hmem
      rw [(hmembers b).mp hmem] at hb
      exact hkey (Option.some.inj hb).symm
    refine ⟨?_, fun _ => Iff.rfl, fun b hb => ⟨?_, ?_⟩⟩
    · show (s.groups.delete key).get? key' = _
      rw [JsMap.get?_delete, if_neg (Ne.symm hkey)]
    · have hne : winner ≠ b := by
        rintro rfl
        have hin := ((hs.at_ key).standing g stored).tallied winner member
        rw [hother hb] at hin
        cases hin
      rw [JsSet.has_add, decide_eq_false hne, Bool.false_or]
    · have hnot : b ∉ g.blocks.keys.filter (· ≠ winner) := by
        intro hmem
        have hin := (JsSet.has_iff_mem_keys _ _).mpr (List.mem_of_mem_filter hmem)
        rw [hother hb] at hin
        cases hin
      rw [Bool.eq_iff_iff, JsSet.has_addAll]
      exact or_iff_right hnot

theorem Resolves.verdict {key : String} {g : ConflictGroup F} {winner : Hex} (hs : Intact s)
    (stored : s.groups.get? key = some g) (fork : ¬g.blocks.keys.length < 2)
    (member : g.tally.has winner = true) (hs' : s' = { s with
      confirmed := JsSet.add s.confirmed winner
      rejected := JsSet.addAll s.rejected (g.blocks.keys.filter (· ≠ winner))
      groups := s.groups.delete key }) :
    s'.Decided key ∧ Verdict s' key winner := by
  subst hs'
  have hmembers := (hs.at_ key).members g stored
  have hstanding := (hs.at_ key).standing g stored
  have hwinner := (hmembers winner).mp (hstanding.tallied winner member)
  refine ⟨⟨JsMap.get?_delete_self .., winner, hwinner⟩, hwinner, fun b hb => ⟨?_, ?_⟩⟩
  · have hbefore := (hstanding.fork fork b ((hmembers b).mpr hb)).1
    rw [JsSet.has_add, hbefore, Bool.or_false, decide_eq_true_eq, eq_comm]
  · have hbefore := (hstanding.fork fork b ((hmembers b).mpr hb)).2
    have hin : b ∈ g.blocks.keys := (JsSet.has_iff_mem_keys _ _).mp ((hmembers b).mpr hb)
    rw [JsSet.has_addAll, hbefore, List.mem_filter, decide_eq_true_eq]
    simp [hin]

theorem Intact.resolves {key : String} {g : ConflictGroup F}
    {confirmed rejected : List Hex} (hs : Intact s) (stored : s.groups.get? key = some g)
    (h : Resolves s key g s' confirmed rejected) : Intact s' := by
  cases h with
  | leaves => exact hs
  | decides winner fork member =>
    have hverdict := Resolves.verdict hs stored fork member rfl
    refine ⟨fun key' => ?_, fun b hb => ?_⟩
    · by_cases hkey : key' = key
      · subst hkey
        have hgone := hverdict.1.1
        refine ⟨fun g' hg' => ?_, fun g' hg' => ?_, fun _ => ⟨winner, hverdict.2⟩⟩
        · rw [hgone] at hg'
          cases hg'
        · rw [hgone] at hg'
          cases hg'
      · exact (hs.at_ key').of_agree ((Resolves.decides winner fork member).agree hs stored hkey)
    · have hmembers := (hs.at_ key).members g stored
      have hin := ((hs.at_ key).standing g stored).tallied winner member
      rcases hb with hconfirmed | hrejected
      · rw [JsSet.has_add, Bool.or_eq_true, decide_eq_true_eq] at hconfirmed
        rcases hconfirmed with rfl | hconfirmed
        · exact ⟨key, (hmembers _).mp hin⟩
        · exact hs.known b (.inl hconfirmed)
      · rw [JsSet.has_addAll] at hrejected
        rcases hrejected with hmem | hrejected
        · exact ⟨key, (hmembers b).mp
            ((JsSet.has_iff_mem_keys _ _).mpr (List.mem_of_mem_filter hmem))⟩
        · exact hs.known b (.inr hrejected)

end

/-- The block is in a decided group, where it has the status. -/
def Settled (s : ConflictResolver F) (b : Hex) (verdict : BlockStatus) : Prop :=
  ∃ key, s.Decided key ∧ s.blockGroup.get? b = some key ∧ s.status b = verdict

omit [JsNumber F] [SignedJsNumber F] in
theorem Settled.of_agree {b : Hex} {verdict : BlockStatus}
    (h : Settled s b verdict) (hagree : ∀ key, s.Decided key → Agree s s' key) :
    Settled s' b verdict := by
  obtain ⟨key, hdecided, hb, hstatus⟩ := h
  have hkey := hagree key hdecided
  exact ⟨key, hkey.decided.mpr hdecided, (hkey.members b).mpr hb, (hkey.status hb).trans hstatus⟩

omit [JsNumber F] [SignedJsNumber F] in
theorem Resolves.settled {key : String} {g : ConflictGroup F}
    {confirmed rejected : List Hex} (hs : Intact s) (stored : s.groups.get? key = some g)
    (h : Resolves s key g s' confirmed rejected) :
    (∀ b ∈ confirmed, Settled s' b .confirmed) ∧ ∀ b ∈ rejected, Settled s' b .rejected := by
  cases h with
  | leaves => simp
  | decides winner fork member =>
    obtain ⟨hdecided, hwinner, hothers⟩ := Resolves.verdict hs stored fork member rfl
    refine ⟨fun b hb => ?_, fun b hb => ?_⟩
    · rw [List.mem_singleton] at hb
      subst hb
      refine ⟨key, hdecided, hwinner, ?_⟩
      rw [ConflictResolver.status, if_pos ((hothers b hwinner).1.mpr rfl)]
    · rw [List.mem_filter, decide_eq_true_eq] at hb
      have hhome : s.blockGroup.get? b = some key := ((hs.at_ key).members g stored b).mp
        ((JsSet.has_iff_mem_keys _ _).mpr hb.1)
      refine ⟨key, hdecided, hhome, ?_⟩
      rw [ConflictResolver.status, if_neg (fun hc => hb.2 ((hothers b hhome).1.mp hc)),
        if_pos ((hothers b hhome).2.mpr hb.2)]

/-- The loop over a snapshot of the groups. -/
theorem resolve_loop (opts : ResolveOptions F) :
    ∀ (entries : List (String × ConflictGroup F)) (s : ConflictResolver F) (out : Resolution),
      Intact s → (entries.map Prod.fst).Nodup →
      (∀ entry ∈ entries, s.groups.get? entry.1 = some entry.2) →
      (∀ b ∈ out.confirmed, Settled s b .confirmed) →
      (∀ b ∈ out.rejected, Settled s b .rejected) →
      let r := entries.foldl (resolveGroup opts) (s, out)
      Intact r.1 ∧ (∀ key, s.Decided key → Agree s r.1 key) ∧
        (∀ b ∈ r.2.confirmed, Settled r.1 b .confirmed) ∧
        ∀ b ∈ r.2.rejected, Settled r.1 b .rejected := by
  intro entries
  induction entries with
  | nil => exact fun s out hs _ _ hconfirmed hrejected =>
    ⟨hs, fun key _ => .refl s key, hconfirmed, hrejected⟩
  | cons entry rest ih =>
    intro s out hs hnodup hstored hconfirmed hrejected
    obtain ⟨key, g⟩ := entry
    rw [List.map_cons, List.nodup_cons] at hnodup
    have stored : s.groups.get? key = some g := hstored _ List.mem_cons_self
    obtain ⟨s', confirmed, rejected, hturn, hresolves⟩ := resolveGroup_cases opts s out key g
    have hagree : ∀ key', s.Decided key' → Agree s s' key' := by
      intro key' hdecided
      refine hresolves.agree hs stored ?_
      rintro rfl
      rw [hdecided.1] at stored
      cases stored
    have hsettled := Resolves.settled hs stored hresolves
    rw [List.foldl_cons, hturn]
    obtain ⟨hintact, hkept, hdone⟩ := ih s' ⟨out.confirmed ++ confirmed, out.rejected ++ rejected⟩
      (hs.resolves stored hresolves) hnodup.2
      (fun entry hentry => by
        have hne : entry.1 ≠ key := fun heq =>
          hnodup.1 (List.mem_map.mpr ⟨entry, hentry, heq⟩)
        rw [(hresolves.agree hs stored hne).group]
        exact hstored entry (List.mem_cons_of_mem _ hentry))
      (fun b hb => (List.mem_append.mp hb).elim
        (fun hold => (hconfirmed b hold).of_agree hagree) (hsettled.1 b))
      (fun b hb => (List.mem_append.mp hb).elim
        (fun hold => (hrejected b hold).of_agree hagree) (hsettled.2 b))
    refine ⟨hintact, fun key' hdecided => ?_, hdone⟩
    exact (hagree key' hdecided).trans (hkept key' ((hagree key' hdecided).decided.mpr hdecided))

theorem resolve_spec (hs : Intact s) (opts : ResolveOptions F) :
    Intact (s.resolve opts).1 ∧ (∀ key, s.Decided key → Agree s (s.resolve opts).1 key) ∧
      (∀ b ∈ (s.resolve opts).2.confirmed, Settled (s.resolve opts).1 b .confirmed) ∧
      ∀ b ∈ (s.resolve opts).2.rejected, Settled (s.resolve opts).1 b .rejected :=
  resolve_loop opts s.groups.entries s {} hs s.groups.nodup
    (fun entry hentry => (JsMap.get?_eq_some_iff _ _ _).mpr hentry) (by simp) (by simp)

end Resolve

/-! ## Runs -/

section Runs

variable [JsNumber F] [SignedJsNumber F] {s : ConflictResolver F}

theorem Intact.step (hs : Intact s) {c : Call F} (hconsistent : s.Consistent c)
    (htimely : s.Timely c) : Intact (s.step c) := by
  cases c with
  | register b accountId previousHash =>
    by_cases hverdict : s.confirmed.has b = true ∨ s.rejected.has b = true
    · rw [ConflictResolver.step, register_of_verdict accountId previousHash hverdict]
      exact hs
    · have hundecided : ¬s.Decided (groupKey accountId previousHash) := by
        rcases htimely with hc | hr | hundecided
        · exact absurd (.inl hc) hverdict
        · exact absurd (.inr hr) hverdict
        · exact hundecided
      rw [not_or, Bool.not_eq_true, Bool.not_eq_true] at hverdict
      exact hs.registers (registers_of_unknown hs hverdict.1 hverdict.2 accountId previousHash)
        hverdict.2 hconsistent hundecided
  | vote v => exact hs.vote v
  | resolve opts => exact (resolve_spec hs opts).1

theorem Agree.step (hs : Intact s) {c : Call F} (hconsistent : s.Consistent c)
    (htimely : s.Timely c) {key : String} (hdecided : s.Decided key) :
    Agree s (s.step c) key := by
  cases c with
  | register b accountId previousHash =>
    by_cases hverdict : s.confirmed.has b = true ∨ s.rejected.has b = true
    · rw [ConflictResolver.step, register_of_verdict accountId previousHash hverdict]
      exact .refl s key
    · have hundecided : ¬s.Decided (groupKey accountId previousHash) := by
        rcases htimely with hc | hr | hundecided
        · exact absurd (.inl hc) hverdict
        · exact absurd (.inr hr) hverdict
        · exact hundecided
      rw [not_or, Bool.not_eq_true, Bool.not_eq_true] at hverdict
      refine (registers_of_unknown hs hverdict.1 hverdict.2 accountId previousHash).agree hs
        hconsistent ?_
      rintro rfl
      exact hundecided hdecided
  | vote v => exact agree_vote hdecided
  | resolve opts => exact (resolve_spec hs opts).2.1 key hdecided

theorem intact_run {calls : List (Call F)} (hs : Intact s)
    (hconsistent : Run.StepsMeet step Consistent s calls)
    (htimely : Run.StepsMeet step Timely s calls) : Intact (Run.final step s calls) := by
  induction calls generalizing s with
  | nil => exact hs
  | cons c rest ih =>
    exact ih (hs.step hconsistent.1 htimely.1) hconsistent.2 htimely.2

theorem Settled.run {b : Hex} {verdict : BlockStatus} {calls : List (Call F)} (hs : Intact s)
    (h : Settled s b verdict) (hconsistent : Run.StepsMeet step Consistent s calls)
    (htimely : Run.StepsMeet step Timely s calls) :
    Settled (Run.final step s calls) b verdict := by
  induction calls generalizing s with
  | nil => exact h
  | cons c rest ih =>
    exact ih (hs.step hconsistent.1 htimely.1)
      (h.of_agree fun key hdecided => Agree.step hs hconsistent.1 htimely.1 hdecided)
      hconsistent.2 htimely.2

/-- Where the books agree, the calls that come in time are those that return and leave no two
siblings confirmed. -/
theorem timely_iff (hs : Intact s) {c : Call F} (hconsistent : s.Consistent c) :
    ¬s.Throws c ∧ OneConfirmed (s.step c) ↔ s.Timely c := by
  refine ⟨fun ⟨hreturns, hone⟩ => ?_, fun htimely =>
    ⟨?_, (hs.step hconsistent htimely).oneConfirmed⟩⟩
  · cases c with
    | register b accountId previousHash =>
      by_cases hverdict : s.confirmed.has b = true ∨ s.rejected.has b = true
      · exact hverdict.imp_right .inl
      · refine .inr (.inr fun hdecided => ?_)
        rw [not_or, Bool.not_eq_true, Bool.not_eq_true] at hverdict
        obtain ⟨winner, hwinner, hothers⟩ := (hs.at_ _).decided hdecided
        have hconfirmed := (hothers winner hwinner).1.mpr rfl
        have hne : winner ≠ b := by
          rintro rfl
          rw [hverdict.1] at hconfirmed
          cases hconfirmed
        -- the winner and the newcomer are siblings, and both are confirmed
        have hregisters := registers_of_unknown hs hverdict.1 hverdict.2 accountId previousHash
        simp only [ConflictResolver.step] at hone
        generalize (s.register b accountId previousHash).1 = s' at hregisters hone
        cases hregisters with
        | opens g fresh lone untallied =>
          refine hne (hone (groupKey accountId previousHash) winner b ?_ ?_ ?_ ?_)
          · exact (JsMap.get?_set_ne _ _ (Ne.symm hne)).trans hwinner
          · exact JsMap.get?_set_self ..
          · rw [JsSet.has_add, hconfirmed, Bool.or_true]
          · exact JsSet.has_add_self _ _
        | joins g g' stored blocks fork tally =>
          rw [hdecided.1] at stored
          cases stored
    | vote v =>
      intro key hkey hdecided
      exact hreturns ((throws_vote_iff s v).mpr ⟨key, hkey, hdecided.1⟩)
    | resolve opts => trivial
  · cases c with
    | register b accountId previousHash => exact id
    | vote v =>
      intro hthrows
      obtain ⟨key, hkey, hgone⟩ := (throws_vote_iff s v).mp hthrows
      exact htimely key hkey ⟨hgone, v.blockHash, hkey⟩
    | resolve opts => exact id

/-- What `resolve` decides in a run stays decided. -/
def VerdictsStay (calls : List (Call F)) : Prop :=
  ∀ (before after later : List (Call F)) (opts : ResolveOptions F),
    calls = before ++ .resolve opts :: (after ++ later) →
    let resolution := ((Run.final step new before).resolve opts).2
    let s := Run.final step new (before ++ .resolve opts :: after)
    (∀ b ∈ resolution.confirmed, s.status b = .confirmed) ∧
      ∀ b ∈ resolution.rejected, s.status b = .rejected

/-- In a run that registers each block under one key, no call throws, no two siblings are ever
confirmed and every decision stays, exactly when no call comes late. -/
theorem one_sibling_confirmed_iff {calls : List (Call F)}
    (hconsistent : Run.StepsMeet step Consistent new calls) :
    Run.EveryStep step (fun s c s' => ¬s.Throws c ∧ OneConfirmed s') new calls ∧
        VerdictsStay calls ↔
      Run.StepsMeet step Timely new calls := by
  have hiff : Run.EveryStep step (fun s c s' => ¬s.Throws c ∧ OneConfirmed s') new calls ↔
      Run.StepsMeet step Timely new calls := Run.everyStep_iff_stepsMeet_of_kept (Q := Intact)
    (fun s c hs hc hR => hs.step hc ((timely_iff hs hc).mp hR))
    (fun s c hs hc => timely_iff hs hc) intact_new hconsistent
  refine ⟨fun h => hiff.mp h.1, fun htimely => ⟨hiff.mpr htimely, ?_⟩⟩
  intro before after later opts hcalls
  subst hcalls
  obtain ⟨hbefore, hopts, hrest⟩ := Run.everyStep_append.mp hconsistent
  obtain ⟨htbefore, htopts, htrest⟩ := Run.everyStep_append.mp htimely
  have hs : Intact (Run.final step (new : ConflictResolver F) before) :=
    intact_run intact_new hbefore htbefore
  have hresolved := resolve_spec hs opts
  have hafter : ∀ {b : Hex} {verdict : BlockStatus},
      Settled ((Run.final step new before).resolve opts).1 b verdict →
      (Run.final step new (before ++ .resolve opts :: after)).status b = verdict := by
    intro b verdict hsettled
    have hrun := hsettled.run hresolved.1 (Run.everyStep_append.mp hrest).1
      (Run.everyStep_append.mp htrest).1
    obtain ⟨-, -, -, hstatus⟩ := hrun
    rw [Run.final_append]
    exact hstatus
  exact ⟨fun b hb => hafter (hresolved.2.2.1 b hb), fun b hb => hafter (hresolved.2.2.2 b hb)⟩

end Runs

/-- Two siblings fork, and a vote decides for the first. -/
def decidedFork : List (Call Rat) :=
  [.register "b1" "a1" "p1", .register "b2" "a1" "p1", .vote ⟨"b1", "v1", 1⟩, .resolve {}]

theorem one_sibling_confirmed_iff_decidedFork :
    Run.EveryStep step (fun s c s' => ¬s.Throws c ∧ OneConfirmed s') new decidedFork ∧
      VerdictsStay decidedFork := by
  have hconsistent : Run.StepsMeet step Consistent new decidedFork :=
    ⟨fun key h => (by cases h), fun key h => (by cases h), trivial, trivial, trivial⟩
  have htimely : Run.StepsMeet step Timely new decidedFork := by
    refine ⟨.inr (.inr fun h => ?_), .inr (.inr fun h => ?_), fun key hkey h => ?_, trivial,
      trivial⟩
    · obtain ⟨-, b, hb⟩ := h
      cases hb
    · exact absurd h.1 (by decide +kernel)
    · obtain rfl : "a1:p1" = key := Option.some.inj hkey
      exact absurd h.1 (by decide +kernel)
  exact (one_sibling_confirmed_iff hconsistent).mpr htimely

/-- After the decision a third sibling is confirmed beside the winner, and a vote throws. -/
theorem late_calls_break :
    ¬OneConfirmed (Run.final step new (decidedFork ++ [.register "b3" "a1" "p1"])) ∧
      (Run.final step new decidedFork).Throws (.vote ⟨"b2", "v2", 1⟩) := by
  refine ⟨fun hone => ?_, (throws_vote_iff _ _).mpr ⟨"a1:p1", ?_, ?_⟩⟩
  · have heq : "b1" = "b3" := hone "a1:p1" "b1" "b3" (by decide +kernel) (by decide +kernel)
      (by decide +kernel) (by decide +kernel)
    exact absurd heq (by decide)
  · decide +kernel
  · decide +kernel

end ConflictResolver

end NeuronWeb
