/-
  Content/Calibration: what a node can serve, from what the probers measured
  (`engine/content/calibration.ts`).

  Samples are taken on a ladder of concurrency rungs.  The judgement walks up the tested rungs,
  stops at the first that is degraded and reports the rung before it.  It is confident when there
  were enough probers; they are counted over all samples, not at the rung that is reported.
-/
import Mathlib.Data.List.Sort
import NeuronWeb.Foundation.JsMap
import NeuronWeb.Foundation.Number

set_option autoImplicit false

namespace NeuronWeb

variable {F : Type} [JsNumber F]

/-- `CALIBRATION_LARGE_BYTES`. -/
def calibrationLargeBytes : Int := 8 * 1024 * 1024

/-- `MIN_SAMPLES_PER_LEVEL`: the samples a rung needs before it may be judged. -/
def minSamplesPerLevel : Nat := 3

/-- `MIN_DISTINCT_PROBERS`: the probers a result needs before it is confident. -/
def minDistinctProbers : Nat := 3

/-- `DEGRADATION_FACTOR`: latency multiple over the baseline that counts as degraded. -/
def degradationFactor : Int := 3

/-- `MAX_FAILURE_RATE`: a tenth. -/
def maxFailureRate (F : Type) [JsNumber F] : F :=
  JsNumber.div (JsNumber.ofInt 1) (JsNumber.ofInt 10)

inductive ProbeSize
  | small
  | large
  deriving DecidableEq

structure ProbeSample (F : Type) where
  /-- Concurrency rung this sample was taken at. -/
  level : Int
  size : ProbeSize
  ok : Bool
  latencyMs : F
  /-- Identity of the node that performed the fetch and timed it. -/
  prober : String

structure CalibrationResult (F : Type) where
  maxConcurrentReads : Int
  throughputBytesPerSec : Option F
  lowerBoundOnly : Bool
  confident : Bool
  proberBound : Bool
  samples : Nat
  distinctProbers : Nat
  levelsJudged : Nat
  reason : String

structure CalibrationRun (F : Type) where
  samples : List (ProbeSample F)

/-! ## The judgement -/

/-- `(a, b) => a - b`. -/
def sortNumbers (l : List F) : List F := l.insertionSort fun a b => JsNumber.lt b a = false

/-- `percentile(sorted, p)`. -/
def percentile (sorted : List F) (p : F) : F :=
  let last : Int := sorted.length - 1
  let index := JsNumber.toInt (JsNumber.ceil (JsNumber.mul p (JsNumber.ofInt sorted.length))) - 1
  sorted.getD (min last (max 0 index)).toNat (JsNumber.ofInt 0)

/-- `new Set(samples.map(s => s.prober)).size`. -/
def distinctProbers (samples : List (ProbeSample F)) : Nat :=
  (JsSet.addAll .empty (samples.map ProbeSample.prober)).keys.length

/-- The latencies of the successful samples, in order. -/
def okLatencies (samples : List (ProbeSample F)) : List F :=
  sortNumbers ((samples.filter fun s => s.ok).map ProbeSample.latencyMs)

/-- Degraded by failure rate, or by latency against the baseline. -/
def degraded (baseline : F) (atLevel : List (ProbeSample F)) : Bool :=
  let failures := JsNumber.div (JsNumber.ofInt (atLevel.filter fun s => !s.ok).length)
    (JsNumber.ofInt atLevel.length)
  let oks := okLatencies atLevel
  let p95 := percentile oks (JsNumber.div (JsNumber.ofInt 95) (JsNumber.ofInt 100))
  JsNumber.lt (maxFailureRate F) failures || oks.isEmpty ||
    JsNumber.lt (JsNumber.mul baseline (JsNumber.ofInt degradationFactor)) p95

/-- The small samples, per rung, in the order in which they came. -/
def samplesByLevel (small : List (ProbeSample F)) : JsMap Int (List (ProbeSample F)) :=
  small.foldl (fun byLevel s => byLevel.set s.level ((byLevel.get? s.level).getD [] ++ [s])) .empty

/-- What the walk up the ladder keeps. -/
structure LadderWalk where
  best : Int
  judged : Nat
  degradedAt : Option Int

/-- The walk: rungs with too few samples are skipped, and it stops at a degraded one. -/
def walkLadder (byLevel : JsMap Int (List (ProbeSample F))) (baseline : F) :
    List Int → LadderWalk → LadderWalk
  | [], walk => walk
  | level :: rest, walk =>
    let atLevel := (byLevel.get? level).getD []
    if atLevel.length < minSamplesPerLevel then walkLadder byLevel baseline rest walk
    else if degraded baseline atLevel then
      { walk with judged := walk.judged + 1, degradedAt := some level }
    else walkLadder byLevel baseline rest { walk with best := level, judged := walk.judged + 1 }

/-- The median throughput of the large samples that succeeded, in bytes per second. -/
def largeThroughput (samples : List (ProbeSample F)) : Option F :=
  let large := samples.filter fun s =>
    decide (s.size = .large) && s.ok && JsNumber.lt (JsNumber.ofInt 0) s.latencyMs
  if minSamplesPerLevel ≤ large.length then
    let rates := sortNumbers (large.map fun s =>
      JsNumber.div (JsNumber.mul (JsNumber.ofInt calibrationLargeBytes) (JsNumber.ofInt s.level))
        (JsNumber.div s.latencyMs (JsNumber.ofInt 1000)))
    some (percentile rates (JsNumber.div (JsNumber.ofInt 1) (JsNumber.ofInt 2)))
  else none

namespace CalibrationRun

/-- `MAX_PER_LEVEL`: samples retained per rung. -/
def maxPerLevel : Nat := 32

def new : CalibrationRun F := ⟨[]⟩

/-- The loop of `trim`, over the newest samples first. -/
def trimNewest (level : Int) (size : ProbeSize) : Nat → List (ProbeSample F) → List (ProbeSample F)
  | _, [] => []
  | count, s :: rest =>
    if s.level ≠ level ∨ s.size ≠ size then s :: trimNewest level size count rest
    else if count + 1 > maxPerLevel then trimNewest level size (count + 1) rest
    else s :: trimNewest level size (count + 1) rest

def add (run : CalibrationRun F) (s : ProbeSample F) : CalibrationRun F :=
  ⟨(trimNewest s.level s.size 0 (run.samples ++ [s]).reverse).reverse⟩

def size (run : CalibrationRun F) : Nat := run.samples.length

/-- The small samples. -/
def small (run : CalibrationRun F) : List (ProbeSample F) :=
  run.samples.filter fun s => decide (s.size = .small)

/-- The rungs with small samples, lowest first. -/
def levels (run : CalibrationRun F) : List Int :=
  (samplesByLevel run.small).keys.insertionSort (· ≤ ·)

/-- The small samples of a rung. -/
def atLevel (run : CalibrationRun F) (level : Int) : List (ProbeSample F) :=
  ((samplesByLevel run.small).get? level).getD []

/-- The successful latencies of the lowest rung. -/
def baselineOk (run : CalibrationRun F) : List F := okLatencies (run.atLevel (run.levels.headD 0))

/-- The lowest rung can be judged against. -/
def baselineJudged (run : CalibrationRun F) : Bool :=
  decide (minSamplesPerLevel ≤ (run.atLevel (run.levels.headD 0)).length) &&
    !run.baselineOk.isEmpty

def baseline (run : CalibrationRun F) : F :=
  percentile run.baselineOk (JsNumber.div (JsNumber.ofInt 1) (JsNumber.ofInt 2))

/-- The result when there is nothing to judge. -/
def unjudged (run : CalibrationRun F) (reason : String) : CalibrationResult F where
  maxConcurrentReads := 0
  throughputBytesPerSec := none
  lowerBoundOnly := false
  confident := false
  proberBound := false
  samples := run.samples.length
  distinctProbers := distinctProbers run.samples
  levelsJudged := 0
  reason := reason

/-- The knee: the highest rung that still served acceptably. -/
def analyze (run : CalibrationRun F) (proberCeiling : Option F) : CalibrationResult F :=
  if run.small.isEmpty then run.unjudged "no samples"
  else if !run.baselineJudged then
    run.unjudged "baseline rung has too few successful samples to judge anything against"
  else
    let probers := distinctProbers run.samples
    let walk := walkLadder (samplesByLevel run.small) run.baseline run.levels ⟨0, 0, none⟩
    let lowerBoundOnly := walk.degradedAt.isNone && decide (run.levels.getLast? = some walk.best)
    let proberBound := proberCeiling.any fun ceiling =>
      JsNumber.le ceiling (JsNumber.ofInt walk.best)
    { maxConcurrentReads := walk.best
      throughputBytesPerSec := largeThroughput run.samples
      lowerBoundOnly := lowerBoundOnly
      confident := decide (minDistinctProbers ≤ probers) && decide (2 ≤ walk.judged) &&
        decide (0 < walk.best) && !proberBound
      proberBound := proberBound
      samples := run.samples.length
      distinctProbers := probers
      levelsJudged := walk.judged
      reason :=
        if proberBound then "stopped at " ++ toString walk.best ++
          ", which is the prober's own ceiling — measures us, not them"
        else match walk.degradedAt with
          | some level => "degraded at " ++ toString level ++ " concurrent — capacity " ++
              toString walk.best
          | none =>
            if lowerBoundOnly then "served the whole ladder — capacity is at least " ++
              toString walk.best ++ ", upper bound unknown"
            else "capacity " ++ toString walk.best ++ " from " ++ toString walk.judged ++
              " rung(s)" }

end CalibrationRun

/-! ## The rungs of a run -/

section Rungs

variable {run : CalibrationRun F} {level : Int}

omit [JsNumber F] in
theorem getD_samplesByLevel (small : List (ProbeSample F)) (level : Int) :
    ((samplesByLevel small).get? level).getD [] =
      small.filter fun s => decide (s.level = level) := by
  have hfold : ∀ byLevel : JsMap Int (List (ProbeSample F)),
      ((small.foldl (fun byLevel s =>
        byLevel.set s.level ((byLevel.get? s.level).getD [] ++ [s])) byLevel).get? level).getD [] =
      (byLevel.get? level).getD [] ++ small.filter fun s => decide (s.level = level) := by
    induction small with
    | nil =>
      intro byLevel
      rw [List.foldl_nil, List.filter_nil, List.append_nil]
    | cons s rest ih =>
      intro byLevel
      rw [List.foldl_cons, ih, JsMap.get?_set]
      split
      case isTrue heq =>
        rw [List.filter_cons_of_pos (by simpa using heq), Option.getD_some, List.append_assoc,
          heq]
        rfl
      case isFalse hne => rw [List.filter_cons_of_neg (by simpa using hne)]
  exact (hfold .empty).trans (List.nil_append _)

omit [JsNumber F] in
theorem mem_keys_samplesByLevel (small : List (ProbeSample F)) (level : Int) :
    level ∈ (samplesByLevel small).keys ↔ ∃ s ∈ small, s.level = level := by
  have hfold : ∀ byLevel : JsMap Int (List (ProbeSample F)),
      ((small.foldl (fun byLevel s =>
        byLevel.set s.level ((byLevel.get? s.level).getD [] ++ [s])) byLevel).has level = true) ↔
      byLevel.has level = true ∨ ∃ s ∈ small, s.level = level := by
    induction small with
    | nil => simp
    | cons s rest ih =>
      intro byLevel
      rw [List.foldl_cons, ih, JsMap.has_set, Bool.or_eq_true, decide_eq_true_iff]
      simp only [List.mem_cons, exists_eq_or_imp]
      tauto
  rw [JsMap.mem_keys_iff, ← JsMap.has_iff]
  exact (hfold .empty).trans (by simp)

/-- A rung may be judged. -/
def Tested (run : CalibrationRun F) (level : Int) : Prop :=
  minSamplesPerLevel ≤ (run.atLevel level).length

instance (run : CalibrationRun F) (level : Int) : Decidable (Tested run level) :=
  inferInstanceAs (Decidable (_ ≤ _))

omit [JsNumber F] in
theorem mem_levels_of_tested (h : Tested run level) : level ∈ run.levels := by
  rw [CalibrationRun.levels, (List.perm_insertionSort _ _).mem_iff, mem_keys_samplesByLevel]
  have hpos : 0 < (run.atLevel level).length := lt_of_lt_of_le (by decide) h
  obtain ⟨s, hs⟩ := List.exists_mem_of_length_pos hpos
  rw [CalibrationRun.atLevel, getD_samplesByLevel, List.mem_filter] at hs
  exact ⟨s, hs.1, of_decide_eq_true hs.2⟩

omit [JsNumber F] in
theorem pairwise_levels (run : CalibrationRun F) : run.levels.Pairwise (· < ·) := by
  have hsorted := List.pairwise_insertionSort (· ≤ ·) (samplesByLevel run.small).keys
  have hnodup : run.levels.Nodup :=
    (List.perm_insertionSort _ _).nodup_iff.mpr (samplesByLevel run.small).nodup
  exact (hsorted.and hnodup).imp fun h => lt_of_le_of_ne h.1 h.2

end Rungs

/-! ## The walk up the ladder -/

section Walk

variable {byLevel : JsMap Int (List (ProbeSample F))} {baseline : F}

/-- The last member before the first that `bad` holds of. -/
def lastGood (bad : Int → Bool) (l : List Int) : Option Int :=
  (l.takeWhile fun x => !bad x).getLast?

/-- A rung of the ladder that is the last before the first bad one. -/
structure IsKnee (l : List Int) (bad : Int → Bool) (c : Int) : Prop where
  mem : c ∈ l
  good : ∀ x ∈ l, x ≤ c → bad x = false
  next : ∀ x ∈ l, c < x → (∀ y ∈ l, c < y → x ≤ y) → bad x = true

theorem exists_next {l : List Int} (hsorted : l.Pairwise (· < ·)) {c y : Int} (hy : y ∈ l)
    (hcy : c < y) : ∃ x ∈ l, c < x ∧ ∀ z ∈ l, c < z → x ≤ z := by
  induction l with
  | nil => cases hy
  | cons a rest ih =>
    obtain ⟨hhead, htail⟩ := List.pairwise_cons.mp hsorted
    by_cases hca : c < a
    · refine ⟨a, List.mem_cons_self, hca, fun z hz _ => ?_⟩
      rcases List.mem_cons.mp hz with rfl | hz
      · exact le_rfl
      · exact (hhead z hz).le
    · have hya : y ∈ rest := by
        rcases List.mem_cons.mp hy with rfl | hy
        · exact absurd hcy hca
        · exact hy
      obtain ⟨x, hx, hcx, hmin⟩ := ih htail hya
      refine ⟨x, List.mem_cons_of_mem a hx, hcx, fun z hz hcz => ?_⟩
      rcases List.mem_cons.mp hz with rfl | hz
      · exact absurd hcz hca
      · exact hmin z hz hcz

theorem IsKnee.not_lt {l : List Int} {bad : Int → Bool} (hsorted : l.Pairwise (· < ·))
    {c e : Int} (hc : IsKnee l bad c) (he : IsKnee l bad e) : ¬ c < e := by
  intro hlt
  obtain ⟨x, hx, hcx, hmin⟩ := exists_next hsorted he.mem hlt
  have hbad := hc.next x hx hcx hmin
  rw [he.good x hx (hmin e he.mem hlt)] at hbad
  cases hbad

theorem isKnee_of_lastGood {bad : Int → Bool} {l : List Int} (hsorted : l.Pairwise (· < ·))
    {c : Int} (h : lastGood bad l = some c) : IsKnee l bad c := by
  induction l generalizing c with
  | nil => cases h
  | cons a rest ih =>
    obtain ⟨hhead, htail⟩ := List.pairwise_cons.mp hsorted
    unfold lastGood at h ih
    by_cases hbad : bad a = true
    · rw [List.takeWhile_cons_of_neg (by simpa using hbad)] at h
      cases h
    · have hgood : bad a = false := Bool.eq_false_of_not_eq_true hbad
      rw [List.takeWhile_cons_of_pos (by simpa using hbad), List.getLast?_cons] at h
      cases hlast : (rest.takeWhile fun x => !bad x).getLast? with
      | some e =>
        rw [hlast] at h
        cases h
        have hrest := ih htail hlast
        refine ⟨List.mem_cons_of_mem a hrest.mem, fun x hx hxc => ?_, fun x hx hcx hmin => ?_⟩
        · rcases List.mem_cons.mp hx with rfl | hx
          · exact hgood
          · exact hrest.good x hx hxc
        · rcases List.mem_cons.mp hx with rfl | hx
          · exact absurd (hhead _ hrest.mem) (not_lt.mpr hcx.le)
          · exact hrest.next x hx hcx fun y hy => hmin y (List.mem_cons_of_mem a hy)
      | none =>
        rw [hlast] at h
        cases h
        refine ⟨List.mem_cons_self, fun x hx hxa => ?_, fun x hx hax hmin => ?_⟩
        · rcases List.mem_cons.mp hx with rfl | hx
          · exact hgood
          · exact absurd (hhead x hx) (not_lt.mpr hxa)
        · -- the next one ended the walk
          cases rest with
          | nil =>
            rcases List.mem_cons.mp hx with rfl | hx
            · exact absurd hax (lt_irrefl _)
            · cases hx
          | cons b rest =>
            have hxb : x = b := by
              have hle := hmin b (List.mem_cons_of_mem _ List.mem_cons_self)
                (hhead b List.mem_cons_self)
              rcases List.mem_cons.mp hx with rfl | hx
              · exact absurd hax (lt_irrefl _)
              · rcases List.mem_cons.mp hx with rfl | hx
                · rfl
                · exact absurd ((List.pairwise_cons.mp htail).1 x hx) (not_lt.mpr hle)
            by_contra hb
            rw [hxb] at hb
            rw [List.takeWhile_cons_of_pos (by simpa using hb), List.getLast?_cons] at hlast
            cases hlast

theorem lastGood_eq_some_iff {bad : Int → Bool} {l : List Int} (hsorted : l.Pairwise (· < ·))
    (c : Int) : lastGood bad l = some c ↔ IsKnee l bad c := by
  refine ⟨isKnee_of_lastGood hsorted, fun h => ?_⟩
  cases hlast : lastGood bad l with
  | some e =>
    have he := isKnee_of_lastGood hsorted hlast
    exact congrArg some (le_antisymm (not_lt.mp (h.not_lt hsorted he))
      (not_lt.mp (he.not_lt hsorted h)))
  | none =>
    cases l with
    | nil => cases h.mem
    | cons a rest =>
      have hle : a ≤ c := by
        rcases List.mem_cons.mp h.mem with rfl | hc
        · exact le_rfl
        · exact ((List.pairwise_cons.mp hsorted).1 c hc).le
      have hgood := h.good a List.mem_cons_self hle
      unfold lastGood at hlast
      rw [List.takeWhile_cons_of_pos (by rw [hgood]; rfl), List.getLast?_cons] at hlast
      cases hlast

/-- The rungs of a list that may be judged. -/
def judgeable (byLevel : JsMap Int (List (ProbeSample F))) (levels : List Int) : List Int :=
  levels.filter fun level => decide (minSamplesPerLevel ≤ ((byLevel.get? level).getD []).length)

/-- The walk ends at the last rung before the first degraded one, which it has judged too. -/
theorem walkLadder_spec (levels : List Int) (walk : LadderWalk) :
    let bad := fun level => degraded baseline ((byLevel.get? level).getD [])
    let passed := (judgeable byLevel levels).takeWhile fun level => !bad level
    (walkLadder byLevel baseline levels walk).best = (passed.getLast?).getD walk.best ∧
      (walkLadder byLevel baseline levels walk).judged =
        walk.judged + min (passed.length + 1) (judgeable byLevel levels).length := by
  induction levels generalizing walk with
  | nil => exact ⟨rfl, rfl⟩
  | cons level rest ih =>
    rw [walkLadder, judgeable]
    dsimp only at ih ⊢
    split
    case isTrue hfew =>
      rw [List.filter_cons_of_neg (by simpa using hfew)]
      exact ih walk
    case isFalse henough =>
      rw [List.filter_cons_of_pos (by simpa using henough)]
      split
      case isTrue hbad =>
        rw [List.takeWhile_cons_of_neg (by simpa using hbad)]
        refine ⟨rfl, ?_⟩
        rw [List.length_cons, List.length_nil]
        dsimp only
        omega
      case isFalse hgood =>
        rw [List.takeWhile_cons_of_pos (by simpa using hgood), List.getLast?_cons]
        obtain ⟨hbest, hjudged⟩ := ih { walk with best := level, judged := walk.judged + 1 }
        rw [hbest, hjudged, List.length_cons, List.length_cons, ← judgeable]
        refine ⟨rfl, ?_⟩
        dsimp only
        omega

end Walk

/-! ## The probers at the rung that is reported -/

section Support

variable {run : CalibrationRun F} {proberCeiling : Option F} {c : Int}

/-- The probers that sampled a rung, with files of the sizes that are to count. -/
def probersAt (sizes : ProbeSize → Bool) (run : CalibrationRun F) (level : Int) : Nat :=
  distinctProbers (run.samples.filter fun s => sizes s.size && decide (s.level = level))

/-- A rung is degraded against the baseline of the run. -/
def DegradedAt (run : CalibrationRun F) (level : Int) : Prop :=
  degraded run.baseline (run.atLevel level) = true

/-- What makes a run be confident of a rung. -/
structure ReportsRung (run : CalibrationRun F) (proberCeiling : Option F) (c : Int) : Prop where
  judged : run.baselineJudged = true
  probers : minDistinctProbers ≤ distinctProbers run.samples
  positive : 0 < c
  below_ceiling : ∀ ceiling ∈ proberCeiling, ¬ JsNumber.le ceiling (JsNumber.ofInt c) = true
  tested : Tested run c
  another : ∃ l, Tested run l ∧ l ≠ c
  passed : ∀ l, Tested run l → l ≤ c → ¬ DegradedAt run l
  next : ∀ l, Tested run l → c < l → (∀ m, Tested run m → c < m → l ≤ m) → DegradedAt run l

omit [JsNumber F] in
theorem mem_judgeable (run : CalibrationRun F) (level : Int) :
    level ∈ judgeable (samplesByLevel run.small) run.levels ↔ Tested run level := by
  rw [judgeable, List.mem_filter, decide_eq_true_iff]
  exact ⟨fun h => h.2, fun h => ⟨mem_levels_of_tested h, h⟩⟩

theorem two_le_length_iff {l : List Int} (hsorted : l.Pairwise (· < ·)) (hc : c ∈ l) :
    2 ≤ l.length ↔ ∃ x ∈ l, x ≠ c := by
  cases l with
  | nil => cases hc
  | cons a rest =>
    cases rest with
    | nil =>
      refine iff_of_false (by simp) ?_
      rintro ⟨x, hx, hne⟩
      rw [List.mem_singleton] at hx hc
      exact hne (hx.trans hc.symm)
    | cons b rest =>
      refine iff_of_true (by simp) ?_
      have hab := (List.pairwise_cons.mp hsorted).1 b List.mem_cons_self
      by_cases hac : a = c
      · exact ⟨b, List.mem_cons_of_mem a List.mem_cons_self, fun h => by omega⟩
      · exact ⟨a, List.mem_cons_self, hac⟩

theorem isKnee_iff (run : CalibrationRun F) (c : Int) :
    IsKnee (judgeable (samplesByLevel run.small) run.levels)
        (fun level => degraded run.baseline (run.atLevel level)) c ↔
      Tested run c ∧ (∀ l, Tested run l → l ≤ c → ¬ DegradedAt run l) ∧
        ∀ l, Tested run l → c < l → (∀ m, Tested run m → c < m → l ≤ m) → DegradedAt run l := by
  constructor
  · intro h
    refine ⟨(mem_judgeable run c).mp h.mem, fun l hl hle => ?_, fun l hl hlt hmin => ?_⟩
    · have hgood := h.good l ((mem_judgeable run l).mpr hl) hle
      exact Bool.not_eq_true _ ▸ hgood
    · exact h.next l ((mem_judgeable run l).mpr hl) hlt fun m hm =>
        hmin m ((mem_judgeable run m).mp hm)
  · rintro ⟨htested, hpassed, hnext⟩
    refine ⟨(mem_judgeable run c).mpr htested, fun l hl hle => ?_, fun l hl hlt hmin => ?_⟩
    · exact Bool.eq_false_of_not_eq_true (hpassed l ((mem_judgeable run l).mp hl) hle)
    · exact hnext l ((mem_judgeable run l).mp hl) hlt fun m hm =>
        hmin m ((mem_judgeable run m).mpr hm)

/-- The walk of a run. -/
def CalibrationRun.walk (run : CalibrationRun F) : LadderWalk :=
  walkLadder (samplesByLevel run.small) run.baseline run.levels ⟨0, 0, none⟩

theorem small_ne_nil_of_judged (h : run.baselineJudged = true) : run.small.isEmpty = false := by
  rw [CalibrationRun.baselineJudged, Bool.and_eq_true, decide_eq_true_iff,
    CalibrationRun.atLevel, getD_samplesByLevel] at h
  cases hsmall : run.small with
  | nil =>
    rw [hsmall, List.filter_nil, List.length_nil] at h
    exact absurd h.1 (Nat.not_succ_le_zero _)
  | cons s rest => rfl

theorem confident_of_judged (h : run.baselineJudged = true) (proberCeiling : Option F) :
    (run.analyze proberCeiling).maxConcurrentReads = run.walk.best ∧
      (run.analyze proberCeiling).confident =
        (decide (minDistinctProbers ≤ distinctProbers run.samples) &&
          decide (2 ≤ run.walk.judged) && decide (0 < run.walk.best) &&
          !(proberCeiling.any fun ceiling =>
            JsNumber.le ceiling (JsNumber.ofInt run.walk.best))) := by
  rw [CalibrationRun.analyze, small_ne_nil_of_judged h, h]
  exact ⟨rfl, rfl⟩

theorem not_confident_of_not_judged (h : run.baselineJudged = false) (proberCeiling : Option F) :
    (run.analyze proberCeiling).confident = false := by
  rw [CalibrationRun.analyze, h]
  split
  case isTrue => rfl
  case isFalse => rfl

theorem walk_best_eq_iff (run : CalibrationRun F) (hpos : 0 < c) : run.walk.best = c ↔
    Tested run c ∧ (∀ l, Tested run l → l ≤ c → ¬ DegradedAt run l) ∧
      ∀ l, Tested run l → c < l → (∀ m, Tested run m → c < m → l ≤ m) → DegradedAt run l := by
  have hsorted : (judgeable (samplesByLevel run.small) run.levels).Pairwise (· < ·) :=
    (pairwise_levels run).filter _
  have hbest : run.walk.best = (lastGood (fun level => degraded run.baseline (run.atLevel level))
      (judgeable (samplesByLevel run.small) run.levels)).getD 0 :=
    (walkLadder_spec run.levels ⟨0, 0, none⟩).1
  rw [← isKnee_iff, ← lastGood_eq_some_iff hsorted, hbest]
  cases lastGood (fun level => degraded run.baseline (run.atLevel level))
      (judgeable (samplesByLevel run.small) run.levels) with
  | none => exact iff_of_false (fun h => hpos.ne h) (fun h => by cases h)
  | some e => rw [Option.getD_some, Option.some_inj]

theorem two_le_walk_judged_iff (run : CalibrationRun F) (hpos : 0 < c) (h : run.walk.best = c) :
    2 ≤ run.walk.judged ↔ ∃ l, Tested run l ∧ l ≠ c := by
  have hsorted : (judgeable (samplesByLevel run.small) run.levels).Pairwise (· < ·) :=
    (pairwise_levels run).filter _
  obtain ⟨hbest, hjudged⟩ :=
    @walkLadder_spec F _ (samplesByLevel run.small) run.baseline run.levels ⟨0, 0, none⟩
  dsimp only at hbest hjudged
  have hmem := (mem_judgeable run c).mpr ((walk_best_eq_iff run hpos).mp h).1
  have hlength := two_le_length_iff hsorted hmem
  have hjudged' : run.walk.judged = _ := hjudged
  rw [hjudged']
  cases hpassed : (judgeable (samplesByLevel run.small) run.levels).takeWhile (fun level =>
      !degraded run.baseline (((samplesByLevel run.small).get? level).getD [])) with
  | nil =>
    rw [hpassed] at hbest
    exact absurd (h.symm.trans hbest) hpos.ne'
  | cons a rest =>
    rw [List.length_cons]
    constructor
    · intro htwo
      obtain ⟨l, hl, hne⟩ := hlength.mp (by omega)
      exact ⟨l, (mem_judgeable run l).mp hl, hne⟩
    · rintro ⟨l, hl, hne⟩
      have := hlength.mpr ⟨l, (mem_judgeable run l).mpr hl, hne⟩
      omega

theorem confident_iff (run : CalibrationRun F) (proberCeiling : Option F) (c : Int) :
    ((run.analyze proberCeiling).confident = true ∧
      (run.analyze proberCeiling).maxConcurrentReads = c) ↔ ReportsRung run proberCeiling c := by
  cases hjudged : run.baselineJudged with
  | false =>
    refine iff_of_false (fun h => ?_) fun h => ?_
    · rw [not_confident_of_not_judged hjudged] at h
      cases h.1
    · rw [h.judged] at hjudged
      cases hjudged
  | true =>
    obtain ⟨hreads, hconfident⟩ := confident_of_judged hjudged proberCeiling
    rw [hreads, hconfident]
    simp only [Bool.and_eq_true, decide_eq_true_iff, Bool.not_eq_true', Option.any_eq_false]
    constructor
    · rintro ⟨⟨⟨⟨hprobers, htwo⟩, hpos⟩, hceiling⟩, hbest⟩
      rw [hbest] at hpos hceiling
      obtain ⟨htested, hpassed, hnext⟩ := (walk_best_eq_iff run hpos).mp hbest
      exact
        { judged := hjudged
          probers := hprobers
          positive := hpos
          below_ceiling := fun ceiling hmem => Bool.eq_false_iff.mp (hceiling ceiling hmem)
          tested := htested
          another := (two_le_walk_judged_iff run hpos hbest).mp htwo
          passed := hpassed
          next := hnext }
    · intro h
      have hbest := (walk_best_eq_iff run h.positive).mpr ⟨h.tested, h.passed, h.next⟩
      have htwo := (two_le_walk_judged_iff run h.positive hbest).mpr h.another
      rw [hbest]
      exact ⟨⟨⟨⟨h.probers, htwo⟩, h.positive⟩, fun ceiling hmem =>
        Bool.eq_false_iff.mpr (h.below_ceiling ceiling hmem)⟩, rfl⟩

/-- A rung with few probers is not the one that is reported: the run is not confident at all, or
the walk has stopped before that rung, or it goes on beyond it. -/
def ThinRungsPassedBy (sizes : ProbeSize → Bool) (run : CalibrationRun F)
    (proberCeiling : Option F) : Prop :=
  ∀ c, Tested run c → 0 < c → probersAt sizes run c < minDistinctProbers →
    run.baselineJudged = false ∨ distinctProbers run.samples < minDistinctProbers ∨
      (∀ l, Tested run l → l = c) ∨
      (∃ ceiling ∈ proberCeiling, JsNumber.le ceiling (JsNumber.ofInt c) = true) ∨
      (∃ l, Tested run l ∧ l ≤ c ∧ DegradedAt run l) ∨
      ∃ l, Tested run l ∧ c < l ∧ (∀ m, Tested run m → c < m → l ≤ m) ∧ ¬ DegradedAt run l

/-- Whatever sizes of files are to count as support: what a confident run reports was sampled by
enough probers exactly when every rung that was not is passed by. -/
theorem reported_rung_supported_iff (sizes : ProbeSize → Bool) (run : CalibrationRun F)
    (proberCeiling : Option F) :
    ((run.analyze proberCeiling).confident = true → minDistinctProbers ≤
        probersAt sizes run (run.analyze proberCeiling).maxConcurrentReads) ↔
      ThinRungsPassedBy sizes run proberCeiling := by
  constructor
  · intro hsupported c htested hpos hthin
    by_contra hno
    simp only [not_or, not_exists, not_and, not_forall] at hno
    obtain ⟨hjudged, hprobers, hanother, hceiling, hpassed, hnext⟩ := hno
    have hreports : ReportsRung run proberCeiling c :=
      { judged := by simpa using hjudged
        probers := not_lt.mp hprobers
        positive := hpos
        below_ceiling := hceiling
        tested := htested
        another := by
          obtain ⟨l, hl, hne⟩ := hanother
          exact ⟨l, hl, hne⟩
        passed := hpassed
        next := fun l hl hlt hmin => Classical.not_not.mp (hnext l hl hlt hmin) }
    obtain ⟨hconfident, hreads⟩ := (confident_iff run proberCeiling c).mpr hreports
    have henough := hsupported hconfident
    rw [hreads] at henough
    omega
  · intro hthin hconfident
    have hreports := (confident_iff run proberCeiling _).mp ⟨hconfident, rfl⟩
    by_contra hfew
    rcases hthin _ hreports.tested hreports.positive (not_le.mp hfew) with
      hjudged | hprobers | halone | ⟨ceiling, hmem, hle⟩ | ⟨l, hl, hle, hdegraded⟩ |
      ⟨l, hl, hlt, hmin, hpassed⟩
    · rw [hreports.judged] at hjudged
      cases hjudged
    · exact absurd hreports.probers (not_le.mpr hprobers)
    · obtain ⟨l, hl, hne⟩ := hreports.another
      exact hne (halone l hl)
    · exact hreports.below_ceiling ceiling hmem hle
    · exact hreports.passed l hl hle hdegraded
    · exact hpassed (hreports.next l hl hlt hmin)

/-- Three probers sample the first rung; one of them samples the last one, three times. -/
def onePassingProber : List (ProbeSample Rat) :=
  [⟨1, .small, true, 100, "a"⟩, ⟨1, .small, true, 100, "b"⟩, ⟨1, .small, true, 100, "c"⟩,
    ⟨128, .small, true, 100, "a"⟩, ⟨128, .small, true, 100, "a"⟩, ⟨128, .small, true, 100, "a"⟩]

/-- The last rung is reported on the word of one. -/
theorem reported_rung_of_one_prober :
    let run := onePassingProber.foldl CalibrationRun.add CalibrationRun.new
    let result := run.analyze none
    result.confident = true ∧ result.maxConcurrentReads = 128 ∧
      ¬ minDistinctProbers ≤ probersAt (fun _ => true) run result.maxConcurrentReads := by
  decide +kernel

end Support

end NeuronWeb
