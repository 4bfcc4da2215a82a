/-
  Consensus/Seed: the chain of epoch seeds (`engine/consensus/seed.ts`).

  `seed[e+1] = H(seed[e] ‖ sorted distinct betas revealed during e)`.  Decoding a seed
  or a beta that is not hex throws, and so does committing an epoch whose seed is
  unknown; both are `none` here.
-/
import NeuronWeb.Core.Hash

set_option autoImplicit false

namespace NeuronWeb

variable {F : Type}

/-- Fixed genesis seed for epoch 0. -/
def GENESIS_SEED (P : Primitives F) : Hex :=
  hashHex P (utf8ToBytes "neuron-epoch-seed/genesis/v1")

/-- Insertion into a list of strings sorted the way `Array.sort` sorts them. -/
def insertBeta (beta : Hex) : List Hex → List Hex
  | [] => [beta]
  | b :: rest => if beta < b then beta :: b :: rest else b :: insertBeta beta rest

/-- `[...new Set(betas)].sort()`. -/
def uniqueSorted (betas : List Hex) : List Hex :=
  (JsSet.addAll JsMap.empty betas).keys.foldr insertBeta []

/-- Derive the next epoch's seed from this epoch's seed and the betas revealed in it. -/
def deriveNextSeed (P : Primitives F) (prevSeed : Hex) (betas : List Hex) : Option Hex :=
  match hexToBytes prevSeed, (uniqueSorted betas).mapM hexToBytes with
  | some seed, some parts => some (hashHex P (seed ++ parts.flatten))
  | _, _ => none

/-- `EpochSeeds`: the seeds derived so far. -/
abbrev EpochSeeds := JsMap Int Hex

namespace EpochSeeds

/-- `new EpochSeeds()`. -/
def new (P : Primitives F) : EpochSeeds := JsMap.empty.set 0 (GENESIS_SEED P)

/-- Seed for `epoch`, when it is derived. -/
def seedFor (seeds : EpochSeeds) (epoch : Int) : Option Hex := seeds.get? epoch

/-- Highest epoch whose seed is known. -/
def currentEpoch (seeds : EpochSeeds) : Int := seeds.keys.foldl max 0

/-- Commit epoch `epoch`'s betas: store and return the seed of `epoch + 1`. -/
def commit (P : Primitives F) (seeds : EpochSeeds) (epoch : Int) (betas : List Hex) :
    Option (EpochSeeds × Hex) :=
  match seeds.get? epoch with
  | none => none
  | some prev => (deriveNextSeed P prev betas).map fun next => (seeds.set (epoch + 1) next, next)

end EpochSeeds

end NeuronWeb
