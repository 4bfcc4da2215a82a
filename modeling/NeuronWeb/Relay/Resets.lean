/-
  Relay/Resets: the reset epoch of one relay (`relay/server.ts`).

  A reset is a gossip message that an operator signed. The relay wipes itself when the signer is
  one of its operators, whatever generation the message names; a client also asks that the
  generation is above its own. The wipe dismisses the operators, and the first accounts that are
  attested afterwards are the next ones.
-/
import NeuronWeb.Directory.Records
import NeuronWeb.Foundation.Run
import NeuronWeb.Relay.Sample

set_option autoImplicit false

namespace NeuronWeb

variable {F : Type} [JsNumber F]

/-! ## The model -/

structure ResetRelay (F : Type) where
  relay : Relay F
  currentGeneration : F
  /-- What was signed in the resets that the relay has carried out. -/
  carriedOut : List String

/-- What an operator signs: `reset:${m.generation}:${m.resetAt}`; `none` where a field cannot be
written and it throws. -/
def resetPayload (m : Json F) : Option String :=
  match Json.written (m.property "generation"), Json.written (m.property "resetAt") with
  | some generation, some resetAt => some ("reset:" ++ generation ++ ":" ++ resetAt)
  | _, _ => none

/-- A reset that an operator of the relay has signed: what was signed, and the generation that
`Number(m.generation)` names, `none` for one that is falsy. -/
structure OperatorReset (F : Type) where
  payload : String
  named : Option F

namespace ResetRelay

/-- A relay that has carried out nothing yet. -/
def start (relay : Relay F) (currentGeneration : F) : ResetRelay F :=
  ⟨relay, currentGeneration, []⟩

/-- `performNetworkWipe(newGeneration, source)`. -/
def performNetworkWipe (s : ResetRelay F) (newGeneration : F) : ResetRelay F :=
  { s with
    relay := { s.relay with
      engineBlockStore := .empty
      recoveryShareStore := .empty
      usernameRegistry := .empty
      faceDescriptorDB := s.relay.faceDescriptorDB.map fun e => { e with count := 0 }
      pendingFaceUses := .empty
      operators := [] }
    currentGeneration := newGeneration }

/-- The tests of the generation handler, in their order; `none` where one fails or throws. -/
def authorized (P : Primitives F) (parse : String → F) (s : ResetRelay F) (network : Network)
    (m : Json F) : Option (OperatorReset F) :=
  if network ≠ .testnet then none
  else if (Json.asNumber (m.property "resetAt")).isNone then none
  else
    match (Json.asString (m.property "operatorPub")).filter fun pub =>
        pub ≠ "" && s.relay.operators.contains pub with
    | none => none
    | some operatorPub =>
      let signature :=
        if Json.missing (m.property "signature") then some ""
        else Json.written (m.property "signature")
      match signature, resetPayload m with
      | some signature, some payload =>
        if P.verify signature payload operatorPub = false then none
        else
          (Json.toNumber parse (m.property "generation")).map fun generation =>
            ⟨payload, some generation |>.filter fun g => !(Json.num g).falsy⟩
      | _, _ => none

/-- The generation that a reset leads to: `Number(m.generation) || currentGeneration + 1`. -/
def target (s : ResetRelay F) (reset : OperatorReset F) : F :=
  reset.named.getD (JsNumber.add s.currentGeneration (JsNumber.ofInt 1))

/-- A message on a `/generation` topic. -/
def onGeneration (P : Primitives F) (parse : String → F) (s : ResetRelay F) (network : Network)
    (m : Json F) : ResetRelay F :=
  match s.authorized P parse network m with
  | none => s
  | some reset =>
    { s.performNetworkWipe (s.target reset) with
      carriedOut := s.carriedOut ++ [reset.payload] }

/-- The generation follower, on what one peer relay answers. -/
def follow (s : ResetRelay F) (info : Json F) : ResetRelay F :=
  match Json.asNumber (info.property "generation") with
  | some generation =>
    if JsNumber.lt s.currentGeneration generation then s.performNetworkWipe generation else s
  | none => s

/-- What reaches the relay: what elects operators and everything else that `Relay` handles, a
message on a `/generation` topic, the answer of a peer relay to the follower.  A message or an
answer that is no JSON does nothing. -/
inductive Input (F : Type) where
  | relay (input : Relay.Input F)
  | generation (network : Network) (m : Json F)
  | peer (info : Json F)

def step (P : Primitives F) (cfg : RelayConfig F) (parse : String → F) (s : ResetRelay F) :
    Input F → ResetRelay F
  | .relay input => { s with relay := s.relay.step P cfg input }
  | .generation network m => s.onGeneration P parse network m
  | .peer info => s.follow info

/-! ## What is asked of a step -/

/-- The generation is not lower than it was, and no signed reset has been carried out twice. -/
structure MovesForward (s s' : ResetRelay F) : Prop where
  epoch : JsNumber.lt s'.currentGeneration s.currentGeneration = false
  once : s'.carriedOut.Nodup

/-- Of the resets that an operator in office has signed, those arrive that were not carried out
before and that name no generation below the relay's own. -/
def Unspent (P : Primitives F) (parse : String → F) (s : ResetRelay F) : Input F → Prop
  | .generation network m => ∀ reset, s.authorized P parse network m = some reset →
      reset.payload ∉ s.carriedOut ∧
      ∀ generation, reset.named = some generation →
        JsNumber.lt generation s.currentGeneration = false
  | _ => True

section Steps

variable [OrderedJsNumber F] {P : Primitives F} {cfg : RelayConfig F} {parse : String → F}
  {s : ResetRelay F}

theorem lt_self (x : F) : JsNumber.lt x x = false := by
  by_contra h
  have hlt : JsNumber.lt x x = true := by simpa using h
  rw [OrderedJsNumber.lt_asymm x x hlt] at hlt
  cases hlt

section

variable (hs : s.carriedOut.Nodup)
include hs

theorem MovesForward.of_same {s' : ResetRelay F}
    (hgeneration : s'.currentGeneration = s.currentGeneration)
    (hcarried : s'.carriedOut = s.carriedOut) : MovesForward s s' := by
  refine ⟨?_, ?_⟩
  · rw [hgeneration]
    exact lt_self s.currentGeneration
  · rw [hcarried]
    exact hs

theorem movesForward_follow (info : Json F) : MovesForward s (s.follow info) := by
  unfold follow
  split
  · next generation hgeneration =>
      split
      · next hlt => exact ⟨OrderedJsNumber.lt_asymm _ _ hlt, hs⟩
      · exact .of_same hs rfl rfl
  · exact .of_same hs rfl rfl

omit [OrderedJsNumber F] in
theorem movesForward_reset {network : Network} {m : Json F}
    {reset : OperatorReset F} (hreset : s.authorized P parse network m = some reset) :
    MovesForward s (s.onGeneration P parse network m) ↔
      reset.payload ∉ s.carriedOut ∧
      JsNumber.lt (s.target reset) s.currentGeneration = false := by
  have hafter : s.onGeneration P parse network m =
      { s.performNetworkWipe (s.target reset) with
        carriedOut := s.carriedOut ++ [reset.payload] } := by
    simp only [onGeneration, hreset]
  have hnodup : (s.carriedOut ++ [reset.payload]).Nodup ↔ reset.payload ∉ s.carriedOut := by
    rw [List.nodup_append]
    simp [hs]
    grind
  rw [hafter, ← hnodup]
  exact ⟨fun h => ⟨h.once, h.epoch⟩, fun h => ⟨h.2, h.1⟩⟩

theorem movesForward_step_iff [SuccJsNumber F] (input : Input F) :
    MovesForward s (s.step P cfg parse input) ↔ Unspent P parse s input := by
  cases input with
  | relay input =>
    have hkeeps : MovesForward s (s.step P cfg parse (.relay input)) := .of_same hs rfl rfl
    exact iff_of_true hkeeps trivial
  | peer info => exact iff_of_true (movesForward_follow hs info) trivial
  | generation network m =>
    have htarget (reset : OperatorReset F) :
        JsNumber.lt (s.target reset) s.currentGeneration = false ↔
          ∀ generation, reset.named = some generation →
            JsNumber.lt generation s.currentGeneration = false := by
      obtain ⟨payload, named⟩ := reset
      cases named with
      | none => simp [target, SuccJsNumber.add_one_not_lt]
      | some generation => simp [target]
    simp only [step, Unspent]
    cases hreset : s.authorized P parse network m with
    | none =>
      have hignored : s.onGeneration P parse network m = s := by
        simp only [onGeneration, hreset]
      rw [hignored]
      exact iff_of_true (.of_same hs rfl rfl) (fun reset h => by cases h)
    | some reset =>
      rw [movesForward_reset hs hreset, htarget]
      constructor
      · rintro h reset' heq
        cases heq
        exact h
      · intro h
        exact h reset rfl

end

end Steps

/-- The epoch only moves forward and each signed reset wipes at most once, along the runs whose
resets are all unspent. -/
theorem movesForward_iff [OrderedJsNumber F] [SuccJsNumber F] (P : Primitives F)
    (cfg : RelayConfig F) (parse : String → F) (relay : Relay F) (currentGeneration : F)
    (inputs : List (Input F)) :
    Run.EveryStep (step P cfg parse) (fun s _ s' => MovesForward s s')
        (start relay currentGeneration) inputs ↔
      Run.StepsMeet (step P cfg parse) (Unspent P parse) (start relay currentGeneration)
        inputs := by
  refine Run.everyStep_iff_stepsMeet_of_kept (Q := fun s => s.carriedOut.Nodup)
    (N := fun _ _ => True) ?_ ?_ List.nodup_nil
    (Run.stepsMeet_of_forall (fun _ _ => trivial) _ _)
  · intro s input _ _ hforward
    exact hforward.once
  · intro s input hs _
    exact movesForward_step_iff hs input

/-! ## A reset that is delivered again -/

section Samples

open Sample (primitives relayConfig enrol)

/-- The first operator's reset to generation 1, as gossip carries it. -/
def firstReset : Json Rat :=
  .obj [("generation", .int 1), ("resetAt", .int 5), ("operatorPub", .str "02a"),
    ("signature", .str (Sample.signature "reset:1/1:5/1" "02a"))]

/-- The account is attested on a challenge of its own, as the verify handler with this index. -/
def election (challengeId : String) (i : Nat) : List (Input Rat) :=
  [.relay (.challenge "127.0.0.1" .testnet challengeId true 0),
    .relay (.verify (enrol .testnet "02a" "ann" challengeId 0) 1),
    .relay (.resume i "n" 2), .relay (.resume i "" 3)]

/-- Elected, reset, elected again. -/
def electedTwice : List (Input Rat) :=
  election "c" 0 ++ [.generation .testnet firstReset] ++ election "d" 1

/-- Elected again after its own reset, the operator is still answerable for the old one. -/
theorem replayed_reset_wipes_again : ¬ ∀ (P : Primitives Rat) (cfg : RelayConfig Rat)
    (parse : String → Rat) (relay : Relay Rat) (currentGeneration : Rat)
    (inputs : List (Input Rat)),
    Run.EveryStep (step P cfg parse) (fun s _ s' => MovesForward s s')
      (start relay currentGeneration) inputs := by
  intro h
  have hlast := (h primitives relayConfig (fun _ => 0) Relay.new 0
    (electedTwice ++ [.generation .testnet firstReset])).last.once
  have htwice : (step primitives relayConfig (fun _ => 0)
      (Run.final (step primitives relayConfig fun _ => 0) (start Relay.new 0) electedTwice)
      (.generation .testnet firstReset)).carriedOut =
        ["reset:1/1:5/1", "reset:1/1:5/1"] := by
    decide +kernel
  rw [htwice] at hlast
  simp at hlast

/-- A relay that hears the reset once. -/
theorem movesForward_once : Run.EveryStep (step primitives relayConfig fun _ => 0)
    (fun s _ s' => MovesForward s s') (start Relay.new 0)
    (election "c" 0 ++ [.generation .testnet firstReset]) := by
  refine (movesForward_iff primitives relayConfig (fun _ => 0) Relay.new 0 _).mpr ?_
  refine ⟨trivial, trivial, trivial, trivial, ?_, trivial⟩
  have hcheck : ((Run.final (step primitives relayConfig fun _ => 0) (start Relay.new 0)
      (election "c" 0)).authorized primitives (fun _ => 0) .testnet firstReset).all
        (fun reset => decide (reset.payload = "reset:1/1:5/1" ∧ reset.named = some 1)) = true := by
    decide +kernel
  have hfresh : (Run.final (step primitives relayConfig fun _ => 0) (start Relay.new 0)
      (election "c" 0)).carriedOut = [] ∧ (Run.final (step primitives relayConfig fun _ => 0)
      (start Relay.new 0) (election "c" 0)).currentGeneration = 0 := by
    decide +kernel
  intro reset hreset
  obtain ⟨-, hnamed⟩ := of_decide_eq_true ((Option.all_eq_true _ _).mp hcheck reset hreset)
  refine ⟨?_, ?_⟩
  · intro hmem
    exact List.not_mem_nil (hfresh.1 ▸ hmem)
  · intro generation hgeneration
    rw [hnamed] at hgeneration
    cases hgeneration
    exact (congrArg (JsNumber.lt 1) hfresh.2).trans rfl

end Samples

end ResetRelay

end NeuronWeb
