/-
  Ledger/ReplayOrder: the order of replay does not matter.

  The chains an orderly ledger has created can be replayed in any order that keeps each
  account's own: every block is accepted and the outcome is the ledger that created them.
  A token that its receiver parts with breaks this.
-/
import NeuronWeb.Ledger.Production
import NeuronWeb.Ledger.Replay

set_option autoImplicit false

namespace NeuronWeb.EngineLedger

variable {F : Type} [JsNumber F]

/-- A fresh ledger accepts every block of every interleaving of the held chains that keeps
each account's order, and then agrees with this ledger. -/
def ReplaysAlike (P : Primitives F) (L : EngineLedger F) : Prop :=
  ∀ blocks : List (Block F × Int), (∀ x, blocksOf blocks x = L.getAccountChain x) →
    ∃ R, replay P (new P) blocks = some R ∧ SameValue L R

theorem Produced.replaysAlike {P : Primitives F} {L : EngineLedger F} (hL : Produced P L)
    (hP : CollisionFree P) : ReplaysAlike P L := by
  intro blocks hblocks
  have htowards : Towards P L.getAccountChain (new P) :=
    ⟨derived_new P, hL.coherent, fun _ => List.nil_prefix⟩
  obtain ⟨R, hreplay, hderived, hchains⟩ := htowards.replay hP hblocks
  exact ⟨R, hreplay, hL.derived.sameValue hderived hchains hL.coherent.path⟩

/-- Whatever an orderly ledger has created so far, it can be replayed in any order. -/
theorem replay_order_irrelevant (P : Primitives F) (cfg : LedgerConfig) (hP : CollisionFree P)
    (calls : List (Call F)) (hcalls : Run.StepsMeet (step P cfg) (Orderly P) (new P) calls) :
    Run.Always (step P cfg) (ReplaysAlike P) (new P) calls :=
  Run.always_of_invariant (fun _ _ hL hc => produced_step hP hL hc)
    (fun _ hL => hL.replaysAlike hP) (produced_new P) hcalls

end NeuronWeb.EngineLedger

namespace NeuronWeb.Sample

theorem keyPair_transparent {pub : Hex} (h : ':' ∉ pub.toList) :
    EngineLedger.KeyPair transparent pub pub :=
  ⟨h, fun message => ⟨signature message pub, rfl, verify_signature message pub⟩⟩

end NeuronWeb.Sample

namespace NeuronWeb.EngineLedger

/-! ## Runs -/

/-- Alice and Bob open accounts, Alice mints a token and sends it to Bob, who receives it
and burns it. -/
def tokenRun (P : Primitives Rat) : List (Call Rat) :=
  let tokenId := nftTokenId P "alice" 1 "song"
  let sent : List (Call Rat) :=
    [.registerAccount ⟨"bob", "bob"⟩, .openAccount "alice" "alice" "nullifier-a" [] false 0,
      .openAccount "bob" "bob" "nullifier-b" [] false 0,
      .createMintNft "alice" "song" [] "alice" 1,
      .createTransferNft "alice" tokenId "bob" "alice" 2]
  let L := Run.final (step P Sample.config) (new P) sent
  let hash := ((L.getAccountHead "alice").map fun head => head.hash).getD ""
  sent ++ [.createReceiveNft "bob" hash "bob" 3, .createBurnNft "bob" tokenId "bob" 4]

/-- The calls that open accounts, name them and create blocks on their chains, storage
apart. -/
def Call.creates : Call Rat → Bool
  | .registerAccount _ | .updateAccountFields _ _ | .openAccount _ _ _ _ _ _
  | .createSend _ _ _ _ _ | .createReceive _ _ _ _ | .createUpdate _ _ _ _
  | .createMintNft _ _ _ _ _ | .createTransferNft _ _ _ _ _ | .createReceiveNft _ _ _ _
  | .createBurnNft _ _ _ _ => true
  | _ => false

/-- The ledger that the whole run leaves behind. -/
def burnedLedger : EngineLedger Rat :=
  Run.final (step Sample.primitives Sample.config) (new Sample.primitives)
    (tokenRun Sample.primitives)

/-- Bob's chain arrives between Alice's mint and her transfer. -/
def bobFirst : List (Block Rat × Int) :=
  let alice := burnedLedger.getAccountChain "alice"
  let bob := burnedLedger.getAccountChain "bob"
  (alice.take 2 ++ bob ++ alice.drop 2).map fun b => (b, 0)

theorem blocksOf_bobFirst (x : Hex) : blocksOf bobFirst x = burnedLedger.getAccountChain x := by
  by_cases halice : x = "alice"
  · subst halice
    decide +kernel
  · by_cases hbob : x = "bob"
    · subst hbob
      decide +kernel
    · have hauthors : ∀ b ∈ bobFirst.map Prod.fst,
          b.accountId = "alice" ∨ b.accountId = "bob" := by decide +kernel
      have hkeys : burnedLedger.held.keys = ["alice", "bob"] := by decide +kernel
      have hnone : burnedLedger.held.get? x = none := by
        cases hget : burnedLedger.held.get? x with
        | none => rfl
        | some h =>
          have hmem : x ∈ burnedLedger.held.keys :=
            List.mem_map_of_mem (f := Prod.fst) ((JsMap.get?_eq_some_iff _ _ _).mp hget)
          simp [hkeys, halice, hbob] at hmem
      have hempty : blocksOf bobFirst x = [] := by
        unfold blocksOf
        rw [List.filter_eq_nil_iff]
        intro b hb
        rcases hauthors b hb with h | h <;> simp [h, Ne.symm halice, Ne.symm hbob]
      rw [hempty, getAccountChain, hnone]
      rfl

/-- An orderly run: the token stays with its first receiver. -/
theorem replay_order_irrelevant_one_transfer :
    Run.Always (step Sample.transparent Sample.config) (ReplaysAlike Sample.transparent)
      (new Sample.transparent) ((tokenRun Sample.transparent).take 6) := by
  have halice : KeyPair Sample.transparent "alice" "alice" :=
    Sample.keyPair_transparent (by decide)
  have hbob : KeyPair Sample.transparent "bob" "bob" := Sample.keyPair_transparent (by decide)
  refine replay_order_irrelevant Sample.transparent Sample.config
    Sample.collisionFree_transparent _
    ⟨trivial, halice, hbob, halice, ⟨halice, ?_⟩, ⟨hbob, ?_⟩, trivial⟩
  · intro _ info hinfo
    have hminter : info = ⟨"alice", "song", []⟩ :=
      Option.some.inj (hinfo.symm.trans (by decide +kernel))
    rw [hminter]
  · intro offer hoffer _ _
    have hfrom : offer = ⟨nftTokenId Sample.transparent "alice" 1 "song", "alice", "bob"⟩ :=
      Option.some.inj (hoffer.symm.trans (by decide +kernel))
    rw [hfrom]
    decide +kernel

/-- The receiver of a token burns it: a replay that sees this before the transfer refuses
the burn. -/
theorem replay_order_matters : ¬ ∀ calls : List (Call Rat), (∀ c ∈ calls, c.creates = true) →
    Run.Always (step Sample.primitives Sample.config) (ReplaysAlike Sample.primitives)
      (new Sample.primitives) calls := by
  intro hall
  have hrun := (hall (tokenRun Sample.primitives) (by decide +kernel)).at_final
  obtain ⟨R, hreplay, _⟩ := hrun bobFirst blocksOf_bobFirst
  have hrefused : (replay Sample.primitives (new Sample.primitives) bobFirst).isNone = true := by
    decide +kernel
  rw [hreplay] at hrefused
  cases hrefused

end NeuronWeb.EngineLedger
