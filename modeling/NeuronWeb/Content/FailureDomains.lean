/-
  Content/FailureDomains: which holders fail together
  (`engine/content/failure-domain.ts`).

  A holder is observed up or down in time buckets.  Two holders that were down together often
  enough are one failure domain, and so are two that declare the same machine; a domain is
  what the two relations connect.
-/
import NeuronWeb.Core.Hash

set_option autoImplicit false

namespace NeuronWeb

/-- Joint failures a pair needs before any correlation is reported. -/
def MIN_JOINT_FAILURES : Nat := 3

/-- Hard ceiling on holders entered into the pairwise sweep. -/
def MAX_PAIRWISE_HOLDERS : Nat := 256

/-- Availability history per holder: the buckets it was seen up and down in. -/
structure FailureCorrelation where
  up : JsMap Hex (JsSet Int)
  down : JsMap Hex (JsSet Int)
  /-- `observationBucketMs()`. -/
  bucketMs : Int
  retainBuckets : Int

namespace FailureCorrelation

/-- `m.get(holder)`, made when there is none, with the bucket added. -/
def mark (m : JsMap Hex (JsSet Int)) (holder : Hex) (bucket : Int) : JsMap Hex (JsSet Int) :=
  m.set holder (((m.get? holder).getD .empty).add bucket)

/-- `m.get(holder)?.delete(bucket)`. -/
def unmark (m : JsMap Hex (JsSet Int)) (holder : Hex) (bucket : Int) : JsMap Hex (JsSet Int) :=
  match m.get? holder with
  | some set => m.set holder (set.delete bucket)
  | none => m

/-- `prune`, on one of the two maps. -/
def prune (m : JsMap Hex (JsSet Int)) (holder : Hex) (cutoff : Int) : JsMap Hex (JsSet Int) :=
  match m.get? holder with
  | none => m
  | some set =>
    let set := set.filter fun bucket _ => decide (cutoff ≤ bucket)
    if set.keys.isEmpty then m.delete holder else m.set holder set

/-- Record one observation.  A bucket is up or down, never both. -/
def record (C : FailureCorrelation) (holder : Hex) (ok : Bool) (now : Int) :
    FailureCorrelation :=
  let bucket := now / C.bucketMs
  let cutoff := bucket - C.retainBuckets
  let up := if ok then mark C.up holder bucket else unmark C.up holder bucket
  let down := if ok then unmark C.down holder bucket else mark C.down holder bucket
  { C with up := prune up holder cutoff, down := prune down holder cutoff }

/-- Observed failures for one holder. -/
def failureCount (C : FailureCorrelation) (holder : Hex) : Nat :=
  ((C.down.get? holder).map fun set => set.keys.length).getD 0

/-- A holder with fewer failures than a pair needs can be grouped with nobody. -/
def groupable (C : FailureCorrelation) (holder : Hex) : Bool :=
  decide (MIN_JOINT_FAILURES ≤ C.failureCount holder)

variable {F : Type} [JsNumber F]

/-- Phi above which a pair is treated as one domain: `0.8`. -/
def DOMAIN_PHI_THRESHOLD : F := JsNumber.div (JsNumber.ofInt 8) (JsNumber.ofInt 10)

/-- The `phi` of `evidence(a, b)`; `none` when the pair has not failed together often enough,
or one of the two never varied. -/
def phi (C : FailureCorrelation) (a b : Hex) : Option F :=
  let seen (m : JsMap Hex (JsSet Int)) (holder : Hex) := (m.get? holder).getD .empty
  let counts (p : Int → Bool) (set : JsSet Int) : F := JsNumber.ofInt (set.keys.countP p)
  let n11 := (seen C.down a).keys.countP (seen C.down b).has
  let n10 : F := counts (fun k => !(seen C.down b).has k && (seen C.up b).has k) (seen C.down a)
  let n01 : F := counts (seen C.down b).has (seen C.up a)
  let n00 : F := counts (fun k => !(seen C.down b).has k && (seen C.up b).has k) (seen C.up a)
  if n11 < MIN_JOINT_FAILURES then none
  else
    let n11 : F := JsNumber.ofInt n11
    let num := JsNumber.sub (JsNumber.mul n11 n00) (JsNumber.mul n10 n01)
    let den := JsNumber.sqrt (JsNumber.mul (JsNumber.mul (JsNumber.mul (JsNumber.add n11 n10)
      (JsNumber.add n01 n00)) (JsNumber.add n11 n01)) (JsNumber.add n10 n00))
    if JsNumber.same den (JsNumber.ofInt 0) then none else some (JsNumber.div num den)

variable (F) in
/-- Is this pair, on the evidence, the same failure domain? -/
def sameDomain (C : FailureCorrelation) (a b : Hex) : Bool :=
  (C.phi (F := F) a b).any fun phi => JsNumber.le DOMAIN_PHI_THRESHOLD phi

end FailureCorrelation

/-! ## Domains -/

/-- The forest of `inferDomains`: each holder's parent. -/
abbrev DomainForest := JsMap Hex Hex

namespace DomainForest

/-- `find(x)`, which shortens the paths that it takes.  A path is no longer than the number of
holders. -/
def root : Nat → DomainForest → Hex → Hex × DomainForest
  | 0, parent, x => (x, parent)
  | fuel + 1, parent, x =>
    let r := (parent.get? x).getD x
    if r = x then (x, parent)
    else
      let (r, parent) := root fuel parent r
      (r, parent.set x r)

/-- `union(x, y)`. -/
def union (parent : DomainForest) (x y : Hex) : DomainForest :=
  let (rx, parent) := root parent.keys.length parent x
  let (ry, parent) := root parent.keys.length parent y
  if rx ≠ ry then parent.set rx ry else parent

/-- Self-asserted hints can only merge. -/
def mergeDeclared (declared : Hex → Option String) (holders : List Hex) (parent : DomainForest) :
    DomainForest :=
  (holders.foldl (fun (forest : DomainForest × JsMap String Hex) h =>
    match (declared h).filter (· ≠ "") with
    | none => forest
    | some d =>
      match (forest.2.get? d).filter (· ≠ "") with
      | some seen => (union forest.1 h seen, forest.2)
      | none => (forest.1, forest.2.set d h)) (parent, .empty)).1

/-- The pairwise sweep. -/
def mergePairs (sameDomain : Hex → Hex → Bool) : List Hex → DomainForest → DomainForest
  | [], parent => parent
  | a :: rest, parent =>
    mergePairs sameDomain rest
      (rest.foldl (fun parent b => if sameDomain a b then union parent a b else parent) parent)

end DomainForest

variable (F : Type) [JsNumber F]

/-- `inferDomains`: group holders into inferred failure domains. -/
def inferDomains (holders : List Hex) (correlation : FailureCorrelation)
    (declared : Hex → Option String) : JsMap Hex String :=
  let parent : DomainForest := holders.foldl (fun parent h => parent.set h h) .empty
  let parent := parent.mergeDeclared declared holders
  let candidates := holders.filter correlation.groupable
  let candidates :=
    if MAX_PAIRWISE_HOLDERS < candidates.length then
      (candidates.mergeSort fun a b =>
        decide (correlation.failureCount b ≤ correlation.failureCount a)).take MAX_PAIRWISE_HOLDERS
    else candidates
  let parent := parent.mergePairs (correlation.sameDomain F) candidates
  (holders.foldl (fun (out : JsMap Hex String × DomainForest) h =>
    let (r, parent) := out.2.root out.2.keys.length h
    (out.1.set h r, parent)) (.empty, parent)).1

end NeuronWeb
