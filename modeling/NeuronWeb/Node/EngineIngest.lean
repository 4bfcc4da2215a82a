/-
  Node/EngineIngest: blocks that arrive in any order (`network/node.ts`,
  `handleIncomingEngineBlock`).

  A block that the ledger cannot link yet is parked under its `previousHash`, and the handler of
  a block that lands flushes what is parked under its hash. The handler awaits between the two,
  so handlers of several deliveries overlap. What keeps a block from being stranded is that
  nothing is parked behind a block that has landed, unless a handler of that block has still to
  look (`Settling.parked`).
-/
import NeuronWeb.Foundation.MapSum
import NeuronWeb.Ledger.InOrder

set_option autoImplicit false

namespace NeuronWeb

variable {F : Type}

/-! ## The handler -/

/-- Blocks that wait for one parent. -/
structure PendingEntry (F : Type) where
  blocks : List (Block F)
  addedAt : Int

/-- `PENDING_BLOCK_TTL_MS`. -/
def PENDING_BLOCK_TTL_MS : Int := 5 * 60 * 1000

/-- A call of the handler at an `await`. -/
inductive IngestFrame (F : Type) where
  /-- `await this.autoReceiveEngine(block)`, the block having been added. -/
  | received (block : Block F)
  /-- `await this.handleIncomingEngineBlock(child)`; `rest` are the children after it. -/
  | flushing (rest : List (Block F))

/-- The handler of one delivery: the calls that have not returned, the innermost first. -/
abbrev IngestStack (F : Type) := List (IngestFrame F)

structure IngestNode (F : Type) where
  ledger : EngineLedger F
  /-- `pendingEngineBlocks`: blocks waiting for their parent, keyed by `previousHash`. -/
  pending : JsMap Hex (PendingEntry F)
  handlers : List (IngestStack F)

namespace IngestNode

/-- An entry past its time. -/
def expired (now : Int) (entry : PendingEntry F) : Bool :=
  decide (PENDING_BLOCK_TTL_MS < now - entry.addedAt)

/-- Queue the block under its predecessor; entries past their time go first. -/
def park (pending : JsMap Hex (PendingEntry F)) (block : Block F) (now : Int) :
    JsMap Hex (PendingEntry F) :=
  let kept := pending.filter fun _ entry => !expired now entry
  match kept.get? block.previousHash with
  | some existing =>
    kept.set block.previousHash { existing with blocks := existing.blocks ++ [block] }
  | none => kept.set block.previousHash ⟨[block], now⟩

/-- How far a call of the handler gets without waiting. -/
inductive Begun (F : Type) where
  | waits (frame : IngestFrame F)
  | returns
  /-- `addBlock` throws, and the handlers that await the call go with it. -/
  | throws

section Handler

variable [JsNumber F] (P : Primitives F)

/-- `handleIncomingEngineBlock` up to its first `await`. -/
def begin (L : EngineLedger F) (pending : JsMap Hex (PendingEntry F)) (block : Block F)
    (now : Int) : EngineLedger F × JsMap Hex (PendingEntry F) × Begun F :=
  match EngineLedger.addBlock P L block now with
  | (L, .success) => (L, pending, .waits (.received block))
  | (L, .failure error) =>
    if error = "missing prior chain" ∨ error = "non-sequential" then
      (L, park pending block now, .returns)
    else (L, pending, .returns)
  | (L, .thrown) => (L, pending, .throws)

/-- The loop over the children, up to the next `await`. -/
def flush (n : IngestNode F) (i : Nat) (children : List (Block F)) (callers : IngestStack F)
    (now : Int) : IngestNode F :=
  match children with
  | [] => { n with handlers := n.handlers.set i callers }
  | child :: rest =>
    let (ledger, pending, begun) := begin P n.ledger n.pending child now
    match begun with
    | .waits frame => ⟨ledger, pending, n.handlers.set i (frame :: .flushing rest :: callers)⟩
    | .returns => ⟨ledger, pending, n.handlers.set i (.flushing rest :: callers)⟩
    | .throws => ⟨ledger, pending, n.handlers.set i []⟩

/-- What the innermost call of a handler does when its `await` is over. -/
def resume (n : IngestNode F) (i : Nat) (now : Int) : IngestNode F :=
  match n.handlers[i]? with
  | some (.received block :: callers) =>
    match n.pending.get? block.hash with
    | some entry =>
      flush P { n with pending := n.pending.delete block.hash } i entry.blocks callers now
    | none => { n with handlers := n.handlers.set i callers }
  | some (.flushing rest :: callers) => flush P n i rest callers now
  | _ => n

/-- A delivery, or the turn of a handler. -/
inductive Input (F : Type) where
  | deliver (block : Block F) (now : Int)
  | resume (i : Nat) (now : Int)

def step (n : IngestNode F) : Input F → IngestNode F
  | .deliver block now =>
    let (ledger, pending, begun) := begin P n.ledger n.pending block now
    match begun with
    | .waits frame => ⟨ledger, pending, n.handlers ++ [[frame]]⟩
    | _ => ⟨ledger, pending, n.handlers⟩
  | .resume i now => n.resume P i now

end Handler

/-- No handler is at work. -/
def Quiet (n : IngestNode F) : Prop := ∀ stack ∈ n.handlers, stack = []

def Input.now : Input F → Int
  | .deliver _ now => now
  | .resume _ now => now

/-- No parked entry is past its time. -/
def Unexpired (n : IngestNode F) (i : Input F) : Prop :=
  ∀ key entry, n.pending.get? key = some entry → expired i.now entry = false

/-- The blocks that a sequence of inputs delivers. -/
def delivered : List (Input F) → List (Block F)
  | [] => []
  | .deliver block _ :: rest => block :: delivered rest
  | .resume _ _ :: rest => delivered rest

end IngestNode

/-! ## What a handler leaves -/

namespace IngestNode

/-- The calls of all handlers. -/
def frames (n : IngestNode F) : List (IngestFrame F) := n.handlers.flatten

/-- The calls that one run of `begin` adds to its handler. -/
def Begun.frames : Begun F → List (IngestFrame F)
  | .waits frame => [frame]
  | _ => []

theorem handlers_split {handlers : List (IngestStack F)} {i : Nat} {stack : IngestStack F}
    (h : handlers[i]? = some stack) :
    ∃ before after, handlers = before ++ stack :: after ∧
      ∀ stack', handlers.set i stack' = before ++ stack' :: after := by
  obtain ⟨hi, hget⟩ := List.getElem?_eq_some_iff.mp h
  refine ⟨handlers.take i, handlers.drop (i + 1), ?_, fun stack' => ?_⟩
  · rw [← hget, ← List.drop_eq_getElem_cons hi, List.take_append_drop]
  · rw [List.set_eq_take_append_cons_drop, if_pos hi]

variable {pending : JsMap Hex (PendingEntry F)}

theorem get?_park {now : Int}
    (hunexpired : ∀ key entry, pending.get? key = some entry → expired now entry = false)
    (block : Block F) (key : Hex) : ((park pending block now).get? key).map PendingEntry.blocks =
      if block.previousHash = key then
        some (((pending.get? key).map PendingEntry.blocks).getD [] ++ [block])
      else (pending.get? key).map PendingEntry.blocks := by
  have hkept : ∀ key,
      (pending.filter fun _ entry => !expired now entry).get? key = pending.get? key := by
    intro key
    rw [JsMap.get?_filter]
    cases hget : pending.get? key with
    | none => rfl
    | some entry => simp [hunexpired key entry hget]
  unfold park
  simp only [hkept]
  split
  · rename_i existing hexisting
    rw [JsMap.get?_set]
    split
    · rename_i hkey
      rw [← hkey, hexisting]
      rfl
    · rw [hkept]
  · rename_i hnone
    rw [JsMap.get?_set]
    split
    · rename_i hkey
      rw [← hkey, hnone]
      rfl
    · rw [hkept]

/-- The block waits under `key`. -/
def ParkedAt (pending : JsMap Hex (PendingEntry F)) (key : Hex) (block : Block F) : Prop :=
  ∃ entry, pending.get? key = some entry ∧ block ∈ entry.blocks

theorem parkedAt_iff {key : Hex} {block : Block F} :
    ParkedAt pending key block ↔
      ∃ blocks, (pending.get? key).map PendingEntry.blocks = some blocks ∧ block ∈ blocks := by
  simp [ParkedAt]

theorem parkedAt_park {now : Int}
    (hunexpired : ∀ key entry, pending.get? key = some entry → expired now entry = false)
    (block : Block F) {key : Hex} {b : Block F} :
    ParkedAt (park pending block now) key b ↔
      ParkedAt pending key b ∨ block.previousHash = key ∧ b = block := by
  rw [parkedAt_iff, parkedAt_iff, get?_park hunexpired]
  by_cases hkey : block.previousHash = key
  · cases hget : pending.get? key <;> simp [hkey]
  · simp [hkey]

theorem parkedAt_delete {key key' : Hex} {b : Block F} :
    ParkedAt (pending.delete key) key' b ↔ key ≠ key' ∧ ParkedAt pending key' b := by
  rw [ParkedAt, JsMap.get?_delete]
  by_cases hkey : key = key'
  · simp [hkey]
  · simp [hkey, ParkedAt]

/-! ## Nothing is stranded -/

section Settling

variable [JsNumber F] {P : Primitives F} {x : Hex} {chain : List (Block F)} {k : Nat}
  {L : EngineLedger F} {pending : JsMap Hex (PendingEntry F)} {fs : List (IngestFrame F)}
  {seen : Block F → Prop}

/-- The first `k` blocks of the chain are held, and the blocks seen beyond them wait. -/
structure Settling (P : Primitives F) (x : Hex) (chain : List (Block F)) (k : Nat)
    (L : EngineLedger F) (pending : JsMap Hex (PendingEntry F)) (fs : List (IngestFrame F))
    (seen : Block F → Prop) : Prop where
  path : EngineLedger.OnPath P x chain k L
  /-- A block parked behind a held one is about to be looked up. -/
  parked : ∀ key b, ParkedAt pending key b → b ∈ chain ∧ b.previousHash = key ∧
    (b.index ≤ k → ∃ parent, .received parent ∈ fs ∧ parent.hash = key)
  flushing : ∀ rest, .flushing rest ∈ fs → ∀ b ∈ rest, b ∈ chain
  kept : ∀ b, seen b → b.index < k ∨ (∃ key, ParkedAt pending key b) ∨
    ∃ rest, .flushing rest ∈ fs ∧ b ∈ rest

section

variable (h : Settling P x chain k L pending fs seen)
include h

theorem Settling.congr {fs' : List (IngestFrame F)}
    (hfs : ∀ f, f ∈ fs ↔ f ∈ fs') : Settling P x chain k L pending fs' seen where
  path := h.path
  parked key b hb := by
    obtain ⟨hmem, hkey, hheld⟩ := h.parked key b hb
    refine ⟨hmem, hkey, fun hle => ?_⟩
    obtain ⟨parent, hparent, hhash⟩ := hheld hle
    exact ⟨parent, (hfs _).mp hparent, hhash⟩
  flushing rest hrest := h.flushing rest ((hfs _).mpr hrest)
  kept b hb := by
    rcases h.kept b hb with hheld | hparked | ⟨rest, hrest, hmem⟩
    · exact .inl hheld
    · exact .inr (.inl hparked)
    · exact .inr (.inr ⟨rest, (hfs _).mp hrest, hmem⟩)

theorem Settling.mono {seen' : Block F → Prop}
    (hseen : ∀ b, seen' b → seen b) : Settling P x chain k L pending fs seen' :=
  { h with kept := fun b hb => h.kept b (hseen b hb) }

theorem Settling.received (block : Block F) :
    Settling P x chain k L pending (.received block :: fs) seen where
  path := h.path
  parked key b hb := by
    obtain ⟨hmem, hkey, hheld⟩ := h.parked key b hb
    refine ⟨hmem, hkey, fun hle => ?_⟩
    obtain ⟨parent, hparent, hhash⟩ := hheld hle
    exact ⟨parent, List.mem_cons_of_mem _ hparent, hhash⟩
  flushing rest hrest := by
    rcases List.mem_cons.mp hrest with hnew | hold
    · cases hnew
    · exact h.flushing rest hold
  kept b hb := by
    rcases h.kept b hb with hheld | hparked | ⟨rest, hrest, hmem⟩
    · exact .inl hheld
    · exact .inr (.inl hparked)
    · exact .inr (.inr ⟨rest, List.mem_cons_of_mem _ hrest, hmem⟩)

theorem Settling.landed
    (valid : EngineLedger.ValidChain P x chain) {b : Block F} (hb : chain[k]? = some b)
    {L' : EngineLedger F} (hpath : EngineLedger.OnPath P x chain (k + 1) L') :
    Settling P x chain (k + 1) L' pending (.received b :: fs) fun c => seen c ∨ c = b where
  path := hpath
  parked key c hc := by
    obtain ⟨hmem, hkey, hheld⟩ := (h.received b).parked key c hc
    refine ⟨hmem, hkey, fun hle => ?_⟩
    by_cases hlower : c.index ≤ k
    · exact hheld hlower
    · -- a child of the block that landed
      obtain ⟨j, hj⟩ := List.mem_iff_getElem?.mp hmem
      have hheight := valid.linear.height j c hj
      have hchild : j = k + 1 := by omega
      subst hchild
      exact ⟨b, List.mem_cons_self, by rw [← hkey, valid.linear.links k b c hb hj]⟩
  flushing := (h.received b).flushing
  kept c hc := by
    have hheight := valid.linear.height k b hb
    rcases hc with hseen | rfl
    · rcases (h.received b).kept c hseen with hheld | hwaits
      · exact .inl (by omega)
      · exact .inr hwaits
    · exact .inl (by omega)

theorem Settling.park {b : Block F} (hb : b ∈ chain) (hearly : k < b.index) {now : Int}
    (hunexpired : ∀ key entry, pending.get? key = some entry → expired now entry = false) :
    Settling P x chain k L (IngestNode.park pending b now) fs fun c => seen c ∨ c = b where
  path := h.path
  parked key c hc := by
    rcases (parkedAt_park hunexpired b).mp hc with hold | ⟨hkey, rfl⟩
    · exact h.parked key c hold
    · exact ⟨hb, hkey, fun hle => by omega⟩
  flushing := h.flushing
  kept c hc := by
    rcases hc with hseen | rfl
    · rcases h.kept c hseen with hheld | ⟨key, hparked⟩ | hrest
      · exact .inl hheld
      · exact .inr (.inl ⟨key, (parkedAt_park hunexpired b).mpr (.inl hparked)⟩)
      · exact .inr (.inr hrest)
    · exact .inr (.inl ⟨_, (parkedAt_park hunexpired c).mpr (.inr ⟨rfl, rfl⟩)⟩)

theorem Settling.begin
    (valid : EngineLedger.ValidChain P x chain) {b : Block F} (hb : b ∈ chain) {now : Int}
    (hunexpired : ∀ key entry, pending.get? key = some entry → expired now entry = false) :
    ∃ L' pending' begun k', IngestNode.begin P L pending b now = (L', pending', begun) ∧
      begun ≠ .throws ∧
      Settling P x chain k' L' pending' (begun.frames ++ fs) fun c => seen c ∨ c = b := by
  obtain ⟨i, hi⟩ := List.mem_iff_getElem?.mp hb
  have hindex := valid.linear.height i b hi
  unfold IngestNode.begin
  rcases Nat.lt_trichotomy i k with hbefore | rfl | hafter
  · rw [h.path.known valid hi hbefore]
    refine ⟨L, pending, .waits (.received b), k, rfl, by simp, ?_⟩
    refine { h.received b with kept := fun c hc => ?_ }
    rcases hc with hseen | rfl
    · exact (h.received b).kept c hseen
    · exact .inl (by omega)
  · obtain ⟨hsuccess, hnext⟩ := h.path.next hi now
    generalize EngineLedger.addBlock P L b now = result at hsuccess hnext
    obtain ⟨L', answer⟩ := result
    cases hsuccess
    exact ⟨L', pending, .waits (.received b), i + 1, rfl, by simp, h.landed valid hi hnext⟩
  · have hpark := h.park hb (by omega) hunexpired
    rcases h.path.early valid hi hafter now with hadd | hadd
    all_goals
      rw [hadd]
      exact ⟨L, IngestNode.park pending b now, .returns, k, by simp, by simp, hpark⟩

end

theorem Settling.flushed (h : Settling P x chain k L pending (.flushing [] :: fs) seen) :
    Settling P x chain k L pending fs seen where
  path := h.path
  parked key b hb := by
    obtain ⟨hmem, hkey, hheld⟩ := h.parked key b hb
    refine ⟨hmem, hkey, fun hle => ?_⟩
    obtain ⟨parent, hparent, hhash⟩ := hheld hle
    rcases List.mem_cons.mp hparent with hnew | hold
    · cases hnew
    · exact ⟨parent, hold, hhash⟩
  flushing rest hrest := h.flushing rest (List.mem_cons_of_mem _ hrest)
  kept b hb := by
    rcases h.kept b hb with hheld | hparked | ⟨rest, hrest, hmem⟩
    · exact .inl hheld
    · exact .inr (.inl hparked)
    · rcases List.mem_cons.mp hrest with hnew | hold
      · cases hnew
        cases hmem
      · exact .inr (.inr ⟨rest, hold, hmem⟩)

theorem Settling.takes {child : Block F} {rest : List (Block F)}
    (h : Settling P x chain k L pending (.flushing (child :: rest) :: fs) seen) :
    Settling P x chain k L pending (.flushing rest :: fs) fun c => seen c ∧ c ≠ child where
  path := h.path
  parked key b hb := by
    obtain ⟨hmem, hkey, hheld⟩ := h.parked key b hb
    refine ⟨hmem, hkey, fun hle => ?_⟩
    obtain ⟨parent, hparent, hhash⟩ := hheld hle
    rcases List.mem_cons.mp hparent with hnew | hold
    · cases hnew
    · exact ⟨parent, List.mem_cons_of_mem _ hold, hhash⟩
  flushing rest' hrest' b hb := by
    rcases List.mem_cons.mp hrest' with hnew | hold
    · cases hnew
      exact h.flushing _ List.mem_cons_self b (List.mem_cons_of_mem _ hb)
    · exact h.flushing rest' (List.mem_cons_of_mem _ hold) b hb
  kept b hb := by
    obtain ⟨hseen, hne⟩ := hb
    rcases h.kept b hseen with hheld | hparked | ⟨rest', hrest', hmem⟩
    · exact .inl hheld
    · exact .inr (.inl hparked)
    · rcases List.mem_cons.mp hrest' with hnew | hold
      · cases hnew
        rcases List.mem_cons.mp hmem with rfl | hmem
        · exact absurd rfl hne
        · exact .inr (.inr ⟨rest, List.mem_cons_self, hmem⟩)
      · exact .inr (.inr ⟨rest', List.mem_cons_of_mem _ hold, hmem⟩)

theorem Settling.looksUp {parent : Block F} {entry : PendingEntry F}
    (h : Settling P x chain k L pending (.received parent :: fs) seen)
    (hentry : pending.get? parent.hash = some entry) :
    Settling P x chain k L (pending.delete parent.hash) (.flushing entry.blocks :: fs) seen where
  path := h.path
  parked key b hb := by
    obtain ⟨hne, hparked⟩ := parkedAt_delete.mp hb
    obtain ⟨hmem, hkey, hheld⟩ := h.parked key b hparked
    refine ⟨hmem, hkey, fun hle => ?_⟩
    obtain ⟨parent', hparent', hhash⟩ := hheld hle
    rcases List.mem_cons.mp hparent' with hnew | hold
    · cases hnew
      exact absurd hhash hne
    · exact ⟨parent', List.mem_cons_of_mem _ hold, hhash⟩
  flushing rest hrest b hb := by
    rcases List.mem_cons.mp hrest with hnew | hold
    · cases hnew
      exact (h.parked _ b ⟨entry, hentry, hb⟩).1
    · exact h.flushing rest (List.mem_cons_of_mem _ hold) b hb
  kept b hb := by
    rcases h.kept b hb with hheld | ⟨key, hparked⟩ | ⟨rest, hrest, hmem⟩
    · exact .inl hheld
    · by_cases hkey : parent.hash = key
      · subst hkey
        obtain ⟨entry', hentry', hmem⟩ := hparked
        rw [hentry] at hentry'
        cases hentry'
        exact .inr (.inr ⟨entry.blocks, List.mem_cons_self, hmem⟩)
      · exact .inr (.inl ⟨key, parkedAt_delete.mpr ⟨hkey, hparked⟩⟩)
    · rcases List.mem_cons.mp hrest with hnew | hold
      · cases hnew
      · exact .inr (.inr ⟨rest, List.mem_cons_of_mem _ hold, hmem⟩)

theorem Settling.childless {parent : Block F}
    (h : Settling P x chain k L pending (.received parent :: fs) seen)
    (hnone : pending.get? parent.hash = none) : Settling P x chain k L pending fs seen where
  path := h.path
  parked key b hb := by
    obtain ⟨hmem, hkey, hheld⟩ := h.parked key b hb
    refine ⟨hmem, hkey, fun hle => ?_⟩
    obtain ⟨parent', hparent', hhash⟩ := hheld hle
    rcases List.mem_cons.mp hparent' with hnew | hold
    · cases hnew
      obtain ⟨entry, hentry, -⟩ := hb
      rw [← hhash, hnone] at hentry
      cases hentry
    · exact ⟨parent', hold, hhash⟩
  flushing rest hrest := h.flushing rest (List.mem_cons_of_mem _ hrest)
  kept b hb := by
    rcases h.kept b hb with hheld | hparked | ⟨rest, hrest, hmem⟩
    · exact .inl hheld
    · exact .inr (.inl hparked)
    · rcases List.mem_cons.mp hrest with hnew | hold
      · cases hnew
      · exact .inr (.inr ⟨rest, hold, hmem⟩)

/-! ## One input -/

/-- The node has seen these blocks of the chain. -/
def Settled (P : Primitives F) (x : Hex) (chain : List (Block F)) (seen : Block F → Prop)
    (n : IngestNode F) : Prop :=
  ∃ k, Settling P x chain k n.ledger n.pending n.frames seen

variable (valid : EngineLedger.ValidChain P x chain)

include valid

variable {n : IngestNode F}

theorem settled_flush {i : Nat} {before after : List (IngestStack F)}
    (hset : ∀ stack, n.handlers.set i stack = before ++ stack :: after)
    {children : List (Block F)} {callers : IngestStack F} {now : Int}
    (h : Settling P x chain k n.ledger n.pending
      (.flushing children :: (before.flatten ++ (callers ++ after.flatten))) seen)
    (hunexpired : ∀ key entry, n.pending.get? key = some entry → expired now entry = false) :
    Settled P x chain seen (n.flush P i children callers now) := by
  unfold IngestNode.flush
  cases children with
  | nil =>
    refine ⟨k, h.flushed.congr fun f => ?_⟩
    simp [frames, hset]
  | cons child rest =>
    have hchild : child ∈ chain := h.flushing _ List.mem_cons_self child List.mem_cons_self
    obtain ⟨L', pending', begun, k', hbegin, hthrows, hsettling⟩ :=
      h.takes.begin valid hchild hunexpired
    have hseen : ∀ b, seen b → (seen b ∧ b ≠ child) ∨ b = child := by
      intro b hb
      by_cases heq : b = child
      · exact .inr heq
      · exact .inl ⟨hb, heq⟩
    simp only [hbegin]
    cases begun with
    | waits frame =>
      refine ⟨k', (hsettling.mono hseen).congr fun f => ?_⟩
      simp only [frames, hset, Begun.frames, List.flatten_append, List.flatten_cons,
        List.mem_append, List.mem_cons, List.cons_append, List.nil_append]
      tauto
    | returns =>
      refine ⟨k', (hsettling.mono hseen).congr fun f => ?_⟩
      simp only [frames, hset, Begun.frames, List.flatten_append, List.flatten_cons,
        List.mem_append, List.mem_cons, List.cons_append, List.nil_append]
      tauto
    | throws => exact absurd rfl hthrows

theorem settled_resume (h : Settled P x chain seen n) {i : Nat} {now : Int}
    (hunexpired : ∀ key entry, n.pending.get? key = some entry → expired now entry = false) :
    Settled P x chain seen (n.resume P i now) := by
  obtain ⟨k, hk⟩ := h
  -- the frames of the node with the one that is resumed at the front
  have hfront : ∀ {frame : IngestFrame F} {callers : IngestStack F},
      n.handlers[i]? = some (frame :: callers) → ∃ before after,
        (∀ stack, n.handlers.set i stack = before ++ stack :: after) ∧
        Settling P x chain k n.ledger n.pending
          (frame :: (before.flatten ++ (callers ++ after.flatten))) seen := by
    intro frame callers hget
    obtain ⟨before, after, hhandlers, hset⟩ := handlers_split hget
    refine ⟨before, after, hset, hk.congr fun f => ?_⟩
    simp only [frames, hhandlers, List.flatten_append, List.flatten_cons, List.mem_append,
      List.mem_cons, List.cons_append]
    tauto
  unfold IngestNode.resume
  split
  · rename_i block callers hget
    obtain ⟨before, after, hset, hframes⟩ := hfront hget
    split
    · rename_i entry hentry
      refine settled_flush (n := { n with pending := n.pending.delete block.hash }) valid hset
        (hframes.looksUp hentry) fun key entry' hentry' => ?_
      exact hunexpired key entry' (JsMap.get?_of_get?_delete hentry').2
    · rename_i hnone
      refine ⟨k, (hframes.childless hnone).congr fun f => ?_⟩
      simp [frames, hset]
  · rename_i rest callers hget
    obtain ⟨before, after, hset, hframes⟩ := hfront hget
    exact settled_flush valid hset hframes hunexpired
  · exact ⟨k, hk⟩

theorem settled_deliver (h : Settled P x chain seen n) {b : Block F}
    (hb : b ∈ chain) {now : Int} (hunexpired : Unexpired n (.deliver b now)) :
    Settled P x chain (fun c => seen c ∨ c = b) (n.step P (.deliver b now)) := by
  obtain ⟨k, hk⟩ := h
  have hopen : ∀ key entry, n.pending.get? key = some entry → expired now entry = false :=
    hunexpired
  obtain ⟨L', pending', begun, k', hbegin, -, hsettling⟩ := hk.begin valid hb hopen
  simp only [IngestNode.step, hbegin]
  cases begun with
  | waits frame =>
    refine ⟨k', hsettling.congr fun f => ?_⟩
    simp only [frames, Begun.frames, List.flatten_append, List.flatten_cons, List.flatten_nil,
      List.mem_append, List.mem_cons, List.cons_append, List.nil_append]
    tauto
  | returns => exact ⟨k', hsettling⟩
  | throws => exact ⟨k', hsettling⟩

theorem settled_run (h : Settled P x chain seen n) {inputs : List (Input F)}
    (hdelivered : ∀ b ∈ delivered inputs, b ∈ chain)
    (hunexpired : Run.StepsMeet (step P) Unexpired n inputs) :
    Settled P x chain (fun b => seen b ∨ b ∈ delivered inputs)
      (Run.final (step P) n inputs) := by
  induction inputs generalizing n seen with
  | nil =>
    obtain ⟨k, hk⟩ := h
    exact ⟨k, hk.mono fun b hb => hb.resolve_right (List.not_mem_nil)⟩
  | cons input rest ih =>
    obtain ⟨hnow, hrest⟩ := hunexpired
    cases input with
    | deliver block now =>
      have hblock : block ∈ chain := hdelivered block List.mem_cons_self
      obtain ⟨k, hk⟩ := ih (settled_deliver valid h hblock hnow)
        (fun b hb => hdelivered b (List.mem_cons_of_mem _ hb)) hrest
      refine ⟨k, hk.mono fun b hb => ?_⟩
      rcases hb with hseen | hb
      · exact .inl (.inl hseen)
      · rcases List.mem_cons.mp hb with rfl | hb
        · exact .inl (.inr rfl)
        · exact .inr hb
    | resume i now => exact ih (settled_resume valid h hnow) hdelivered hrest

omit valid in
theorem Settling.quiet (hquiet : Quiet n)
    (h : Settling P x chain k n.ledger n.pending n.frames seen) :
    (∀ key b, ParkedAt n.pending key b → b ∈ chain ∧ k < b.index) ∧
      ∀ b, seen b → b.index < k ∨ ∃ key, ParkedAt n.pending key b := by
  have hframes : ∀ f, f ∉ n.frames := by
    intro f hf
    obtain ⟨stack, hstack, hmem⟩ := List.mem_flatten.mp hf
    rw [hquiet stack hstack] at hmem
    cases hmem
  refine ⟨fun key b hb => ?_, fun b hb => ?_⟩
  · obtain ⟨hmem, -, hheld⟩ := h.parked key b hb
    refine ⟨hmem, not_le.mp fun hle => ?_⟩
    obtain ⟨parent, hparent, -⟩ := hheld hle
    exact hframes _ hparent
  · rcases h.kept b hb with hheld | hparked | ⟨rest, hrest, -⟩
    · exact .inl hheld
    · exact .inr hparked
    · exact absurd hrest (hframes _)

theorem Settled.quiet (h : Settled P x chain seen n) (hquiet : Quiet n)
    (hall : ∀ b ∈ chain, seen b) : n.ledger.getAccountChain x = chain ∧
      ∀ key b, ¬ParkedAt n.pending key b := by
  obtain ⟨k, hk⟩ := h
  obtain ⟨hparked, hseen⟩ := hk.quiet hquiet
  have hwhole : k = chain.length := by
    refine le_antisymm hk.path.le (not_lt.mp fun hlt => ?_)
    -- the first block that is missing would be parked behind a held one
    have hget : chain[k]? = some chain[k] := List.getElem?_eq_getElem hlt
    have hindex := valid.linear.height k _ hget
    rcases hseen _ (hall _ (List.mem_of_getElem? hget)) with hheld | ⟨key, hwaits⟩
    · omega
    · have hbeyond := (hparked key _ hwaits).2
      omega
  refine ⟨?_, fun key b hb => ?_⟩
  · rw [hk.path.upTo, hwhole, List.take_length]
  · obtain ⟨hmem, hbeyond⟩ := hparked key b hb
    obtain ⟨i, hi⟩ := List.mem_iff_getElem?.mp hmem
    have hheight := valid.linear.height i b hi
    have hlt := (List.getElem?_eq_some_iff.mp hi).1
    omega

end Settling

/-! ## The handlers come to rest -/

section Rest

/-- The children that a call has still to hand on. -/
def IngestFrame.load : IngestFrame F → Nat
  | .received _ => 0
  | .flushing rest => rest.length

/-- A call that has still to look up children. -/
def IngestFrame.looksUp : IngestFrame F → Nat
  | .received _ => 1
  | .flushing _ => 0

/-- The turns of a loop, the last one included. -/
def IngestFrame.turns : IngestFrame F → Nat
  | .received _ => 0
  | .flushing rest => rest.length + 1

/-- The blocks that wait for a call of the handler, parked or about to be handed on. -/
def waiting (n : IngestNode F) : Nat :=
  n.pending.total (fun entry => entry.blocks.length) + (n.frames.map IngestFrame.load).sum

/-- A call that is resumed hands a block on for good, or looks its children up, or has a
turn of its loop less. -/
def rank (n : IngestNode F) : Nat × Nat × Nat :=
  (n.waiting, (n.frames.map IngestFrame.looksUp).sum, (n.frames.map IngestFrame.turns).sum)

variable [JsNumber F] (P : Primitives F)

/-- `n'` is the node `n` after one of the handlers at work has had its turn. -/
def Resumes (n' n : IngestNode F) : Prop :=
  ∃ i now frame callers, n.handlers[i]? = some (frame :: callers) ∧ n' = n.resume P i now

variable {P}

omit [JsNumber F] in
theorem total_park (pending : JsMap Hex (PendingEntry F)) (block : Block F) (now : Int) :
    (park pending block now).total (fun entry => entry.blocks.length) ≤
      pending.total (fun entry => entry.blocks.length) + 1 := by
  have hfilter := JsMap.total_filter_le (fun entry : PendingEntry F => entry.blocks.length) pending
    fun _ entry => !expired now entry
  unfold park
  simp only
  split
  · rename_i existing hexisting
    have hset := JsMap.total_set (fun entry : PendingEntry F => entry.blocks.length)
      (pending.filter fun _ entry => !expired now entry) block.previousHash
      { existing with blocks := existing.blocks ++ [block] }
    rw [hexisting, Option.elim_some, List.length_append, List.length_singleton] at hset
    omega
  · rename_i hnone
    rw [JsMap.total_set_of_fresh _ hnone, List.length_singleton]
    omega

theorem begin_cases (L : EngineLedger F) (pending : JsMap Hex (PendingEntry F)) (block : Block F)
    (now : Int) : ∃ L' pending' begun, IngestNode.begin P L pending block now =
      (L', pending', begun) ∧
      (begun = .waits (.received block) ∧ pending' = pending ∨
        begun = .throws ∧ pending' = pending ∨
        begun = .returns ∧ pending'.total (fun entry => entry.blocks.length) ≤
          pending.total (fun entry => entry.blocks.length) + 1) := by
  unfold IngestNode.begin
  generalize EngineLedger.addBlock P L block now = result
  obtain ⟨L', answer⟩ := result
  cases answer with
  | success => exact ⟨L', pending, _, rfl, .inl ⟨rfl, rfl⟩⟩
  | thrown => exact ⟨L', pending, _, rfl, .inr (.inl ⟨rfl, rfl⟩)⟩
  | failure error =>
    dsimp only
    split
    · exact ⟨L', _, _, rfl, .inr (.inr ⟨rfl, total_park pending block now⟩)⟩
    · exact ⟨L', pending, _, rfl, .inr (.inr ⟨rfl, Nat.le_succ _⟩)⟩

/-- Ranks are compared from the left. -/
def Below (r' r : Nat × Nat × Nat) : Prop :=
  r'.1 < r.1 ∨ r'.1 ≤ r.1 ∧ (r'.2.1 < r.2.1 ∨ r'.2.1 ≤ r.2.1 ∧ r'.2.2 < r.2.2)

theorem below_wellFounded : WellFounded Below := by
  refine Subrelation.wf (r := Prod.Lex (· < ·) (Prod.Lex (· < ·) (· < ·))) ?_
    (WellFounded.prod_lex wellFounded_lt (WellFounded.prod_lex wellFounded_lt wellFounded_lt))
  intro r' r h
  simp only [Prod.lex_def]
  unfold Below at h
  omega

/-- A loop over the children ends below where a node stands that had all of them, and one
turn of a loop more, to do. -/
theorem rank_flush {n : IngestNode F} {i : Nat} {before after : List (IngestStack F)}
    (hset : ∀ stack, n.handlers.set i stack = before ++ stack :: after)
    (children : List (Block F)) (callers : IngestStack F) (now : Int) {r : Nat × Nat × Nat}
    (hwaiting : n.pending.total (fun entry => entry.blocks.length) + children.length +
      ((before.flatten ++ (callers ++ after.flatten)).map IngestFrame.load).sum ≤ r.1)
    (hlookups : ((before.flatten ++ (callers ++ after.flatten)).map IngestFrame.looksUp).sum < r.2.1
      ∨ ((before.flatten ++ (callers ++ after.flatten)).map IngestFrame.looksUp).sum ≤ r.2.1 ∧
        children.length + 1 +
          ((before.flatten ++ (callers ++ after.flatten)).map IngestFrame.turns).sum ≤ r.2.2) :
    Below (n.flush P i children callers now).rank r := by
  unfold IngestNode.flush
  simp only [List.map_append, List.sum_append] at hwaiting hlookups
  cases children with
  | nil =>
    simp only [Below, rank, waiting, frames, hset, List.flatten_append, List.flatten_cons,
      List.map_append, List.sum_append, List.length_nil] at hwaiting hlookups ⊢
    omega
  | cons child rest =>
    obtain ⟨L', pending', begun, hbegin, hcases⟩ :=
      begin_cases (P := P) n.ledger n.pending child now
    simp only [hbegin]
    simp only [List.length_cons] at hwaiting hlookups
    rcases hcases with ⟨rfl, rfl⟩ | ⟨rfl, rfl⟩ | ⟨rfl, hpending⟩
    all_goals
      simp only [Below, rank, waiting, frames, hset, List.flatten_append, List.flatten_cons,
        List.map_append, List.sum_append, List.map_cons, List.sum_cons, List.cons_append,
        List.nil_append, IngestFrame.load, IngestFrame.looksUp, IngestFrame.turns]
      omega

/-- No order of turns keeps the handlers at work for ever. -/
theorem resumes_wellFounded : WellFounded (Resumes (F := F) P) := by
  refine Subrelation.wf (r := InvImage Below rank) ?_ (InvImage.wf rank below_wellFounded)
  rintro n' n ⟨i, now, frame, callers, hget, rfl⟩
  obtain ⟨before, after, hhandlers, hset⟩ := handlers_split hget
  unfold InvImage IngestNode.resume
  rw [hget]
  cases frame with
  | received block =>
    dsimp only
    split
    · rename_i entry hentry
      have hdelete := JsMap.total_delete (fun entry : PendingEntry F => entry.blocks.length)
        n.pending block.hash
      rw [hentry, Option.elim_some] at hdelete
      refine rank_flush (n := { n with pending := n.pending.delete block.hash }) hset _ _ _ ?_
        (.inl ?_)
      · simp only [rank, waiting, frames, hhandlers, List.flatten_append, List.flatten_cons,
          List.map_append, List.sum_append, List.map_cons, List.sum_cons, List.cons_append,
          IngestFrame.load]
        omega
      · simp only [rank, frames, hhandlers, List.flatten_append, List.flatten_cons,
          List.map_append, List.sum_append, List.map_cons, List.sum_cons, List.cons_append,
          IngestFrame.looksUp]
        omega
    · simp only [Below, rank, waiting, frames, hset]
      simp only [hhandlers, List.flatten_append, List.flatten_cons, List.map_append,
        List.sum_append, List.map_cons, List.sum_cons, List.cons_append, IngestFrame.load,
        IngestFrame.looksUp]
      omega
  | flushing rest =>
    refine rank_flush hset _ _ _ ?_ (.inr ⟨?_, ?_⟩)
    all_goals
      simp only [rank, waiting, frames, hhandlers, List.flatten_append, List.flatten_cons,
        List.map_append, List.sum_append, List.map_cons, List.sum_cons, List.cons_append,
        IngestFrame.load, IngestFrame.looksUp, IngestFrame.turns]
      omega

end Rest

/-! ## Deliveries within the time to live -/

section Within

variable [JsNumber F] {P : Primitives F} {start : Int}

/-- Nothing has been parked before `start`. -/
def ParkedSince (start : Int) (pending : JsMap Hex (PendingEntry F)) : Prop :=
  ∀ key entry, pending.get? key = some entry → start ≤ entry.addedAt

omit [JsNumber F] in
theorem parkedSince_park {pending : JsMap Hex (PendingEntry F)} (h : ParkedSince start pending)
    (block : Block F) {now : Int} (hnow : start ≤ now) :
    ParkedSince start (park pending block now) := by
  have hkept : ∀ key entry, (pending.filter fun _ entry => !expired now entry).get? key =
      some entry → start ≤ entry.addedAt :=
    fun key entry hget => h key entry (JsMap.get?_of_get?_filter hget).1
  intro key entry hget
  unfold park at hget
  simp only at hget
  split at hget
  · rename_i existing hexisting
    rw [JsMap.get?_set] at hget
    split at hget
    · cases hget
      exact hkept block.previousHash existing hexisting
    · exact hkept key entry hget
  · rw [JsMap.get?_set] at hget
    split at hget
    · cases hget
      exact hnow
    · exact hkept key entry hget

theorem parkedSince_begin (L : EngineLedger F) {pending : JsMap Hex (PendingEntry F)}
    (h : ParkedSince start pending) (block : Block F) {now : Int} (hnow : start ≤ now) :
    ParkedSince start (IngestNode.begin P L pending block now).2.1 := by
  unfold IngestNode.begin
  generalize EngineLedger.addBlock P L block now = result
  obtain ⟨L', answer⟩ := result
  cases answer with
  | success => exact h
  | thrown => exact h
  | failure error =>
    dsimp only
    split
    · exact parkedSince_park h block hnow
    · exact h

theorem parkedSince_flush {n : IngestNode F} (h : ParkedSince start n.pending) (i : Nat)
    (children : List (Block F)) (callers : IngestStack F) {now : Int} (hnow : start ≤ now) :
    ParkedSince start (n.flush P i children callers now).pending := by
  unfold IngestNode.flush
  cases children with
  | nil => exact h
  | cons child rest =>
    have hbegin := parkedSince_begin (P := P) n.ledger h child hnow
    dsimp only
    split <;> exact hbegin

theorem parkedSince_step {n : IngestNode F} (h : ParkedSince start n.pending) (input : Input F)
    (hnow : start ≤ input.now) : ParkedSince start (n.step P input).pending := by
  cases input with
  | deliver block now =>
    have hbegin := parkedSince_begin (P := P) n.ledger h block hnow
    simp only [IngestNode.step]
    split <;> exact hbegin
  | resume i now =>
    simp only [IngestNode.step]
    unfold IngestNode.resume
    split
    · split
      · exact parkedSince_flush (n := { n with pending := n.pending.delete _ })
          (fun key entry hget => h key entry (JsMap.get?_of_get?_delete hget).2) _ _ _ hnow
      · exact h
    · exact parkedSince_flush h _ _ _ hnow
    · exact h

theorem unexpired_of_within {n : IngestNode F} (h : ParkedSince start n.pending)
    {inputs : List (Input F)} (hwithin : ∀ input ∈ inputs,
      start ≤ input.now ∧ input.now ≤ start + PENDING_BLOCK_TTL_MS) :
    Run.StepsMeet (step P) Unexpired n inputs := by
  induction inputs generalizing n with
  | nil => trivial
  | cons input rest ih =>
    obtain ⟨hlower, hupper⟩ := hwithin input List.mem_cons_self
    refine ⟨fun key entry hget => ?_, ih (parkedSince_step h input hlower)
      fun later hlater => hwithin later (List.mem_cons_of_mem _ hlater)⟩
    have hadded := h key entry hget
    rw [expired, decide_eq_false_iff_not]
    omega

end Within

/-! ## Convergence -/

section Converges

variable [JsNumber F] {P : Primitives F} {x : Hex} {chain : List (Block F)} {L : EngineLedger F}

/-- Blocks of a chain that are delivered in any order, any number of times, with the handlers
taking turns in any order: the handlers come to rest, and then the ledger holds the whole
chain and nothing is parked. -/
theorem out_of_order_converges (hempty : L.getAccountChain x = [])
    (happends : EngineLedger.AppendsInOrder P x L chain) {inputs : List (Input F)}
    (hdelivered : ∀ b, b ∈ delivered inputs ↔ b ∈ chain)
    (hunexpired : Run.StepsMeet (step P) Unexpired ⟨L, .empty, []⟩ inputs) :
    WellFounded (Resumes (F := F) P) ∧
      (Quiet (Run.final (step P) ⟨L, .empty, []⟩ inputs) →
        (Run.final (step P) ⟨L, .empty, []⟩ inputs).ledger.getAccountChain x = chain ∧
        ∀ key b, ¬ParkedAt (Run.final (step P) ⟨L, .empty, []⟩ inputs).pending key b) := by
  have valid : EngineLedger.ValidChain P x chain :=
    EngineLedger.validChain_of_appends ⟨EngineLedger.linear_nil P x, by simp, by simp⟩ hempty
      happends
  have hstart : Settled P x chain (fun _ => False) (⟨L, .empty, []⟩ : IngestNode F) := by
    refine ⟨0, EngineLedger.onPath_start hempty happends, fun key b hb => ?_, fun rest hrest => ?_,
      fun b hb => hb.elim⟩
    · obtain ⟨entry, hentry, -⟩ := hb
      cases hentry
    · cases hrest
  have hrun := settled_run valid hstart (fun b hb => (hdelivered b).mp hb) hunexpired
  exact ⟨resumes_wellFounded, fun hquiet =>
    hrun.quiet valid hquiet fun b hb => .inr ((hdelivered b).mpr hb)⟩

end Converges

/-- The first three blocks of an account. -/
def sampleChain : List (Block Rat) :=
  Sample.continuation "a1" 3 (EngineLedger.new Sample.primitives)

/-- The blocks arrive last one first, and all once more while handlers are at work. -/
def sampleInputs : List (Input Rat) :=
  sampleChain.reverse.map (.deliver · 0) ++ [.resume 0 0, .resume 0 0] ++
    sampleChain.map (.deliver · 1) ++
    [.resume 3 2, .resume 1 2, .resume 0 2, .resume 0 2, .resume 2 2, .resume 0 2, .resume 0 2,
      .resume 0 2]

theorem out_of_order_converges_three :
    (Run.final (step Sample.primitives) ⟨EngineLedger.new Sample.primitives, .empty, []⟩
      sampleInputs).ledger.getAccountChain "a1" = sampleChain ∧
    ∀ key b, ¬ParkedAt (Run.final (step Sample.primitives)
      ⟨EngineLedger.new Sample.primitives, .empty, []⟩ sampleInputs).pending key b := by
  have hcontinues : Sample.Continues "a1" (EngineLedger.new Sample.primitives) :=
    ⟨rfl, fun h hget => by cases hget⟩
  have hdelivered : delivered sampleInputs = sampleChain.reverse ++ sampleChain := rfl
  have hwithin : ∀ input ∈ sampleInputs, 0 ≤ input.now ∧ input.now ≤ 0 + PENDING_BLOCK_TTL_MS := by
    have hall : sampleInputs.all
        (fun input => decide (0 ≤ input.now ∧ input.now ≤ 0 + PENDING_BLOCK_TTL_MS)) = true := rfl
    simpa using hall
  refine (out_of_order_converges rfl (Sample.appendsInOrder_continuation "a1" 3 hcontinues)
    (fun b => ?_) (unexpired_of_within (fun key entry hget => ?_) hwithin)).2 ?_
  · rw [hdelivered]
    simp [sampleChain]
  · cases hget
  · have hquiet : (Run.final (step Sample.primitives)
        ⟨EngineLedger.new Sample.primitives, .empty, []⟩ sampleInputs).handlers.all
          List.isEmpty = true := by decide +kernel
    intro stack hstack
    exact List.isEmpty_iff.mp (List.all_eq_true.mp hquiet stack hstack)

end IngestNode

end NeuronWeb
