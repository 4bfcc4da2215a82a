/-
  Content/ObservationHistory: the buckets a holder was seen up and down in, over any sequence
  of calls (`engine/content/failure-domain.ts`).

  As long as the clock does not go back, no bucket is both up and down, a holder keeps no more
  of them than the window has, and a sweep leaves no holder whose buckets are all too old.
-/
import NeuronWeb.Content.FailureDomains
import NeuronWeb.Foundation.Run
import Mathlib.Data.Int.Interval

set_option autoImplicit false

namespace NeuronWeb

/-- How long co-failure history is kept. -/
def CORRELATION_RETAIN_MS : Int := 7 * 24 * 60 * 60 * 1000

namespace FailureCorrelation

/-! ## The calls -/

/-- A history without observations, of the given heartbeat interval. -/
def new (heartbeatIntervalMs : { ms : Int // 0 < ms }) (retainBuckets : Option Int) :
    FailureCorrelation where
  up := .empty
  down := .empty
  bucketMs := heartbeatIntervalMs
  retainBuckets := retainBuckets.getD (max 1 (-((-CORRELATION_RETAIN_MS) / heartbeatIntervalMs)))

/-- Forget a holder entirely. -/
def forget (C : FailureCorrelation) (holder : Hex) : FailureCorrelation :=
  { C with up := C.up.delete holder, down := C.down.delete holder }

/-- Holders with any history. -/
def holders (C : FailureCorrelation) : List Hex :=
  (JsSet.addAll .empty (C.up.keys ++ C.down.keys)).keys

/-- The map of the buckets that holders were seen up in, or down. -/
def side (C : FailureCorrelation) (ok : Bool) : JsMap Hex (JsSet Int) :=
  bif ok then C.up else C.down

/-- The buckets that a holder was seen up in, or down. -/
def bucketsOf (C : FailureCorrelation) (ok : Bool) (holder : Hex) : JsSet Int :=
  ((C.side ok).get? holder).getD .empty

/-- `newest` of `sweep`; `none` is the source's `-Infinity`. -/
def newest (C : FailureCorrelation) (holder : Hex) : Option Int :=
  ((C.bucketsOf true holder).keys ++ (C.bucketsOf false holder).keys).max?

/-- A holder whose buckets are all before the cutoff. -/
def stale (C : FailureCorrelation) (cutoff : Int) (holder : Hex) : Bool :=
  (C.newest holder).all fun newest => decide (newest < cutoff)

/-- Drop holders that have stopped being observed entirely, and say how many went. -/
def sweep (C : FailureCorrelation) (now : Int) (retainBuckets : Option Int) :
    FailureCorrelation × Nat :=
  let cutoff := now / C.bucketMs - retainBuckets.getD C.retainBuckets
  C.holders.foldl (fun (swept : FailureCorrelation × Nat) holder =>
    if swept.1.stale cutoff holder then (swept.1.forget holder, swept.2 + 1) else swept) (C, 0)

end FailureCorrelation

/-- A call of the class that changes the history. -/
inductive HistoryCall
  | record (holder : Hex) (ok : Bool) (now : Int)
  | forget (holder : Hex)
  | sweep (now : Int) (retainBuckets : Option Int)

namespace HistoryCall

/-- When the call is made, for the calls that read the clock. -/
def time? : HistoryCall → Option Int
  | record _ _ now => some now
  | forget _ => none
  | sweep now _ => some now

def apply (C : FailureCorrelation) : HistoryCall → FailureCorrelation
  | record holder ok now => C.record holder ok now
  | forget holder => C.forget holder
  | sweep now retainBuckets => (C.sweep now retainBuckets).1

end HistoryCall

namespace FailureCorrelation

/-! ## What one call does -/

section Calls

variable {C : FailureCorrelation} {m : JsMap Hex (JsSet Int)} {h j : Hex} {ok : Bool}
  {b k cutoff now : Int}

theorem get?_mark (m : JsMap Hex (JsSet Int)) (h : Hex) (b : Int) (j : Hex) :
    (mark m h b).get? j =
      if h = j then some (((m.get? h).getD .empty).add b) else m.get? j :=
  JsMap.get?_set m h _ j

theorem get?_unmark (m : JsMap Hex (JsSet Int)) (h : Hex) (b : Int) (j : Hex) :
    (unmark m h b).get? j =
      if h = j then (m.get? h).map fun set => set.delete b else m.get? j := by
  unfold unmark
  by_cases hj : h = j
  · subst hj
    cases hset : m.get? h with
    | none => simp [hset]
    | some set => simp
  · cases hset : m.get? h with
    | none => simp [hj]
    | some set => simp [JsMap.get?_set, hj]

theorem get?_prune_of_ne (m : JsMap Hex (JsSet Int)) (cutoff : Int) (hj : h ≠ j) :
    (prune m h cutoff).get? j = m.get? j := by
  unfold prune
  split
  · rfl
  · simp only
    split
    · rw [JsMap.get?_delete, if_neg hj]
    · rw [JsMap.get?_set, if_neg hj]

theorem get?_prune_self {set : JsSet Int} (hset : (prune m h cutoff).get? h = some set) :
    ∃ old, m.get? h = some old ∧ set = old.filter (fun b _ => decide (cutoff ≤ b)) ∧
      set.keys.isEmpty = false := by
  unfold prune at hset
  split at hset
  case h_1 hnone =>
    rw [hnone] at hset
    cases hset
  case h_2 old hold =>
    simp only at hset
    split at hset
    case isTrue =>
      rw [JsMap.get?_delete_self] at hset
      cases hset
    case isFalse hfull =>
      rw [JsMap.get?_set_self] at hset
      cases hset
      exact ⟨old, hold, rfl, Bool.not_eq_true _ ▸ hfull⟩

theorem side_record (C : FailureCorrelation) (h : Hex) (ok : Bool) (now : Int) (ok' : Bool) :
    (C.record h ok now).side ok' =
      prune (if ok' = ok then mark (C.side ok') h (now / C.bucketMs)
        else unmark (C.side ok') h (now / C.bucketMs)) h
        (now / C.bucketMs - C.retainBuckets) := by
  cases ok <;> cases ok' <;> rfl

theorem has_prune (m : JsMap Hex (JsSet Int)) (h : Hex) (cutoff : Int) (j : Hex) (b : Int) :
    (((prune m h cutoff).get? j).getD .empty).has b = true ↔
      ((m.get? j).getD .empty).has b = true ∧ (h = j → cutoff ≤ b) := by
  by_cases hj : h = j
  · subst hj
    unfold prune
    split
    case h_1 hnone => simp [hnone]
    case h_2 old hold =>
      have hfilter : (old.filter fun b _ => decide (cutoff ≤ b)).has b = true ↔
          old.has b = true ∧ cutoff ≤ b := by
        simp only [JsMap.has, JsMap.get?_filter, Option.isSome_filter]
        cases old.get? b <;> simp
      simp only
      split
      case isTrue hempty =>
        have hnone : ¬(old.filter fun b _ => decide (cutoff ≤ b)).has b = true := by
          rw [JsSet.has_iff_mem_keys, List.isEmpty_iff.mp hempty]
          exact List.not_mem_nil
        rw [hfilter] at hnone
        rw [JsMap.get?_delete_self, hold]
        simpa using hnone
      case isFalse =>
        rw [JsMap.get?_set_self, hold]
        simpa using hfilter
  · rw [get?_prune_of_ne m cutoff hj]
    simp [hj]

/-- The bucket is among those the holder was seen up in, or down. -/
def seen (C : FailureCorrelation) (ok : Bool) (holder : Hex) (bucket : Int) : Bool :=
  (C.bucketsOf ok holder).has bucket

theorem bucketsOf_record (C : FailureCorrelation) (h : Hex) (ok : Bool) (now : Int) (ok' : Bool)
    (j : Hex) (b : Int) :
    (C.record h ok now).seen ok' j b = true ↔
      ((((if ok' = ok then mark (C.side ok') h (now / C.bucketMs)
        else unmark (C.side ok') h (now / C.bucketMs)).get? j).getD .empty).has b = true ∧
        (h = j → now / C.bucketMs - C.retainBuckets ≤ b)) := by
  unfold seen bucketsOf
  rw [side_record]
  exact has_prune _ h _ j b

theorem get?_record_ne (ok : Bool) (now : Int) (hj : h ≠ j) {ok' : Bool} :
    ((C.record h ok now).side ok').get? j = (C.side ok').get? j := by
  rw [side_record, get?_prune_of_ne _ _ hj]
  split
  · rw [get?_mark, if_neg hj]
  · rw [get?_unmark, if_neg hj]

theorem seen_record_ne (ok : Bool) (now : Int) (hj : h ≠ j) {ok' : Bool} :
    (C.record h ok now).seen ok' j b = C.seen ok' j b := by
  simp only [seen, bucketsOf, get?_record_ne ok now hj]

section

variable (C : FailureCorrelation)

theorem seen_record_same (h : Hex) (ok : Bool) (now b : Int) :
    (C.record h ok now).seen ok h b = true ↔
      (b = now / C.bucketMs ∨ C.seen ok h b = true) ∧ now / C.bucketMs - C.retainBuckets ≤ b := by
  rw [bucketsOf_record, if_pos rfl, get?_mark, if_pos rfl, Option.getD_some, JsSet.has_add]
  simp only [Bool.or_eq_true, decide_eq_true_eq, forall_true_left, eq_comm (a := b)]
  rfl

theorem seen_record_other (h : Hex) {ok ok' : Bool} (hok : ok' ≠ ok) (now b : Int) :
    (C.record h ok now).seen ok' h b = true ↔
      (b ≠ now / C.bucketMs ∧ C.seen ok' h b = true) ∧
        now / C.bucketMs - C.retainBuckets ≤ b := by
  rw [bucketsOf_record, if_neg hok, get?_unmark, if_pos rfl]
  simp only [forall_true_left]
  refine and_congr_left fun _ => ?_
  unfold seen bucketsOf
  cases hset : (C.side ok').get? h with
  | none => simp
  | some set =>
    simp only [Option.map_some, Option.getD_some, JsMap.has, JsMap.get?_delete]
    by_cases hb : now / C.bucketMs = b
    · simp [hb]
    · simp [hb, Ne.symm hb]

theorem side_forget (h : Hex) (ok : Bool) : (C.forget h).side ok = (C.side ok).delete h := by
  cases ok <;> rfl

theorem get?_forget (h : Hex) (ok : Bool) (j : Hex) :
    ((C.forget h).side ok).get? j = if h = j then none else (C.side ok).get? j := by
  rw [side_forget, JsMap.get?_delete]

end

theorem stale_forget_ne (hj : h ≠ j) : (C.forget h).stale cutoff j = C.stale cutoff j := by
  simp only [stale, newest, bucketsOf, get?_forget, if_neg hj]

theorem mem_holders (C : FailureCorrelation) (h : Hex) :
    h ∈ C.holders ↔ ∃ ok set, (C.side ok).get? h = some set := by
  unfold holders
  rw [← JsSet.has_iff_mem_keys, JsSet.has_addAll]
  simp only [List.mem_append, JsMap.has_empty, Bool.false_eq_true, or_false, Bool.exists_bool,
    JsMap.mem_keys_iff]
  exact or_comm

theorem sweep_settings (C : FailureCorrelation) (now : Int) (retain : Option Int) :
    (C.sweep now retain).1.bucketMs = C.bucketMs ∧
      (C.sweep now retain).1.retainBuckets = C.retainBuckets := by
  unfold sweep
  refine List.foldlRecOn C.holders _
    (motive := fun swept : FailureCorrelation × Nat =>
      swept.1.bucketMs = C.bucketMs ∧ swept.1.retainBuckets = C.retainBuckets) ⟨rfl, rfl⟩ ?_
  intro swept hswept holder _
  split
  · exact hswept
  · exact hswept

theorem get?_sweep (C : FailureCorrelation) (now : Int) (retain : Option Int) (ok : Bool)
    (j : Hex) :
    (((C.sweep now retain).1.side ok).get? j) =
      if j ∈ C.holders ∧
          C.stale (now / C.bucketMs - retain.getD C.retainBuckets) j = true then none
      else (C.side ok).get? j := by
  have hfold : ∀ (l : List Hex) (cutoff : Int) (D : FailureCorrelation) (n : Nat),
      ((l.foldl (fun (swept : FailureCorrelation × Nat) holder =>
        if swept.1.stale cutoff holder then (swept.1.forget holder, swept.2 + 1) else swept)
        (D, n)).1.side ok).get? j =
      if j ∈ l ∧ D.stale cutoff j = true then none else (D.side ok).get? j := by
    intro l cutoff
    induction l with
    | nil => intro D n; simp
    | cons h rest ih =>
      intro D n
      rw [List.foldl_cons]
      by_cases hstale : D.stale cutoff h = true
      · rw [if_pos hstale, ih, get?_forget]
        by_cases hj : h = j
        · subst hj
          simp [hstale]
        · rw [stale_forget_ne hj, if_neg hj]
          simp [Ne.symm hj]
      · rw [if_neg hstale, ih]
        by_cases hj : h = j
        · subst hj
          simp [hstale]
        · simp [Ne.symm hj]
  exact hfold _ _ _ _

end Calls

/-! ## What a run keeps -/

/-- What holds of a history whose calls were made no later than `t`. -/
structure Consistent (C : FailureCorrelation) (t : Int) : Prop where
  filled : ∀ ok h set, (C.side ok).get? h = some set → ∃ b, set.has b = true
  apart : ∀ h b, C.seen true h b = true → C.seen false h b = true → False
  window : ∀ h, ∃ top ≤ t / C.bucketMs, ∀ ok b, C.seen ok h b = true →
    top - C.retainBuckets ≤ b ∧ b ≤ top

section Invariant

variable {C : FailureCorrelation} {h j : Hex} {ok : Bool} {b t u now : Int}

theorem seen_of_get? {set : JsSet Int} (hset : (C.side ok).get? h = some set) :
    C.seen ok h b = set.has b := by
  simp only [seen, bucketsOf, hset, Option.getD_some]

theorem consistent_new (heartbeatIntervalMs retain t) :
    (new heartbeatIntervalMs retain).Consistent t where
  filled ok h set hset := by
    cases ok <;> cases hset
  apart h b hup _ := by cases hup
  window h := ⟨_, le_rfl, fun ok b hseen => by cases ok <;> cases hseen⟩

theorem Consistent.mono (hC : C.Consistent t) (hms : 0 < C.bucketMs) (htu : t ≤ u) :
    C.Consistent u where
  filled := hC.filled
  apart := hC.apart
  window h := by
    obtain ⟨top, htop, hwindow⟩ := hC.window h
    exact ⟨top, htop.trans (Int.ediv_le_ediv hms htu), hwindow⟩

theorem Consistent.record (hC : C.Consistent t) (hms : 0 < C.bucketMs) (htn : t ≤ now) :
    (C.record h ok now).Consistent now where
  filled ok' j set hset := by
    by_cases hj : h = j
    · subst hj
      rw [side_record] at hset
      obtain ⟨old, -, -, hfull⟩ := get?_prune_self hset
      obtain ⟨b, hb⟩ := List.isEmpty_eq_false_iff_exists_mem.mp hfull
      exact ⟨b, (JsSet.has_iff_mem_keys set b).mpr hb⟩
    · rw [get?_record_ne ok now hj] at hset
      exact hC.filled ok' j set hset
  apart j b hup hdown := by
    by_cases hj : h = j
    · subst hj
      cases ok with
      | true =>
        have hup' := ((seen_record_same C h true now b).mp hup).1
        have hdown' := ((seen_record_other C h (by decide) now b).mp hdown).1
        exact hC.apart h b (hup'.resolve_left hdown'.1) hdown'.2
      | false =>
        have hdown' := ((seen_record_same C h false now b).mp hdown).1
        have hup' := ((seen_record_other C h (by decide) now b).mp hup).1
        exact hC.apart h b hup'.2 (hdown'.resolve_left hup'.1)
    · rw [seen_record_ne ok now hj] at hup hdown
      exact hC.apart j b hup hdown
  window j := by
    have hbucket : t / C.bucketMs ≤ now / C.bucketMs := Int.ediv_le_ediv hms htn
    by_cases hj : h = j
    · subst hj
      refine ⟨now / C.bucketMs, le_rfl, fun ok' b hseen => ?_⟩
      obtain ⟨top, htop, hwindow⟩ := hC.window h
      by_cases hok : ok' = ok
      · subst hok
        obtain ⟨hb, hcut⟩ := (seen_record_same C h ok' now b).mp hseen
        refine ⟨hcut, ?_⟩
        rcases hb with rfl | hb
        · exact le_rfl
        · exact (hwindow ok' b hb).2.trans (htop.trans hbucket)
      · obtain ⟨⟨-, hb⟩, hcut⟩ := (seen_record_other C h hok now b).mp hseen
        exact ⟨hcut, (hwindow ok' b hb).2.trans (htop.trans hbucket)⟩
    · obtain ⟨top, htop, hwindow⟩ := hC.window j
      refine ⟨top, htop.trans hbucket, fun ok' b hseen => ?_⟩
      rw [seen_record_ne ok now hj] at hseen
      exact hwindow ok' b hseen

theorem Consistent.of_sublist {D : FailureCorrelation} (hC : C.Consistent t)
    (hms : D.bucketMs = C.bucketMs) (hretain : D.retainBuckets = C.retainBuckets)
    (hsub : ∀ ok h set, (D.side ok).get? h = some set → (C.side ok).get? h = some set) :
    D.Consistent t := by
  have hseen : ∀ ok h b, D.seen ok h b = true → C.seen ok h b = true := by
    intro ok h b hD
    cases hset : (D.side ok).get? h with
    | none =>
      simp only [seen, bucketsOf, hset, Option.getD_none, JsMap.has_empty,
        Bool.false_eq_true] at hD
    | some set =>
      rw [seen_of_get? hset] at hD
      rwa [seen_of_get? (hsub ok h set hset)]
  refine ⟨fun ok h set hset => hC.filled ok h set (hsub ok h set hset), ?_, fun h => ?_⟩
  · exact fun h b hup hdown => hC.apart h b (hseen true h b hup) (hseen false h b hdown)
  · obtain ⟨top, htop, hwindow⟩ := hC.window h
    rw [hms, hretain]
    exact ⟨top, htop, fun ok b hD => hwindow ok b (hseen ok h b hD)⟩

theorem Consistent.forget (hC : C.Consistent t) : (C.forget h).Consistent t := by
  refine hC.of_sublist rfl rfl fun ok j set hset => ?_
  rw [get?_forget] at hset
  split at hset
  · cases hset
  · exact hset

theorem get?_of_get?_sweep {retain : Option Int} {set : JsSet Int}
    (hset : ((C.sweep now retain).1.side ok).get? j = some set) :
    (C.side ok).get? j = some set ∧
      ¬C.stale (now / C.bucketMs - retain.getD C.retainBuckets) j = true := by
  rw [get?_sweep] at hset
  split at hset
  case isTrue => cases hset
  case isFalse hkept =>
    have hmem : j ∈ C.holders := (mem_holders C j).mpr ⟨ok, set, hset⟩
    exact ⟨hset, fun hstale => hkept ⟨hmem, hstale⟩⟩

theorem Consistent.sweep (hC : C.Consistent t) (now : Int) (retain : Option Int) :
    (C.sweep now retain).1.Consistent t := by
  obtain ⟨hms, hretain⟩ := sweep_settings C now retain
  exact hC.of_sublist hms hretain fun ok j set hset => (get?_of_get?_sweep hset).1

theorem recent_of_mem_sweep {retain : Option Int}
    (hj : j ∈ (C.sweep now retain).1.holders) :
    ∃ ok b, (C.sweep now retain).1.seen ok j b = true ∧
      now / C.bucketMs - retain.getD C.retainBuckets ≤ b := by
  obtain ⟨ok, set, hset⟩ := (mem_holders _ j).mp hj
  have hfresh := (get?_of_get?_sweep hset).2
  have hsame : ∀ ok', ((C.sweep now retain).1.side ok').get? j = (C.side ok').get? j := by
    intro ok'
    rw [get?_sweep, if_neg fun hstale => hfresh hstale.2]
  unfold stale at hfresh
  cases hnewest : C.newest j with
  | none =>
    rw [hnewest] at hfresh
    exact absurd rfl hfresh
  | some newest =>
    rw [hnewest] at hfresh
    have hrecent : now / C.bucketMs - retain.getD C.retainBuckets ≤ newest := by
      simpa using hfresh
    rcases List.mem_append.mp (List.max?_mem hnewest) with hup | hdown
    · refine ⟨true, newest, ?_, hrecent⟩
      simp only [seen, bucketsOf, hsame]
      exact (JsSet.has_iff_mem_keys _ _).mpr hup
    · refine ⟨false, newest, ?_, hrecent⟩
      simp only [seen, bucketsOf, hsame]
      exact (JsSet.has_iff_mem_keys _ _).mpr hdown

theorem Consistent.length_le (hC : C.Consistent t) (hh : h ∈ C.holders) :
    (((C.bucketsOf true h).keys.length + (C.bucketsOf false h).keys.length : Nat) : Int) ≤
      C.retainBuckets + 1 := by
  obtain ⟨top, -, hwindow⟩ := hC.window h
  obtain ⟨ok, set, hset⟩ := (mem_holders C h).mp hh
  obtain ⟨b, hb⟩ := hC.filled ok h set hset
  have hb' := hwindow ok b (by rwa [seen_of_get? hset])
  have hmem : ∀ ok b, b ∈ (C.bucketsOf ok h).keys → C.seen ok h b = true :=
    fun ok b hkey => (JsSet.has_iff_mem_keys _ _).mpr hkey
  have hnodup : ((C.bucketsOf true h).keys ++ (C.bucketsOf false h).keys).Nodup := by
    refine List.nodup_append.mpr ⟨(C.bucketsOf true h).nodup, (C.bucketsOf false h).nodup, ?_⟩
    rintro b hup _ hdown rfl
    exact hC.apart h b (hmem true b hup) (hmem false b hdown)
  have hsub : ((C.bucketsOf true h).keys ++ (C.bucketsOf false h).keys).toFinset ⊆
      Finset.Icc (top - C.retainBuckets) top := by
    intro b hb
    rw [List.mem_toFinset, List.mem_append] at hb
    rw [Finset.mem_Icc]
    rcases hb with hup | hdown
    · exact hwindow true b (hmem true b hup)
    · exact hwindow false b (hmem false b hdown)
  have hcard := Finset.card_le_card hsub
  rw [List.toFinset_card_of_nodup hnodup, List.length_append, Int.card_Icc] at hcard
  omega

end Invariant

/-! ## Runs -/

/-- The history after the calls. -/
def run (heartbeatIntervalMs : { ms : Int // 0 < ms }) (retainBuckets : Option Int)
    (calls : List HistoryCall) : FailureCorrelation :=
  Run.final HistoryCall.apply (new heartbeatIntervalMs retainBuckets) calls

theorem apply_settings (C : FailureCorrelation) (call : HistoryCall) :
    (call.apply C).bucketMs = C.bucketMs ∧ (call.apply C).retainBuckets = C.retainBuckets := by
  cases call with
  | record h ok now => exact ⟨rfl, rfl⟩
  | forget h => exact ⟨rfl, rfl⟩
  | sweep now retain => exact sweep_settings C now retain

theorem exists_consistent : ∀ (calls : List HistoryCall) (C : FailureCorrelation) (t : Int),
    C.Consistent t → 0 < C.bucketMs → (∀ s ∈ calls.filterMap HistoryCall.time?, t ≤ s) →
    (calls.filterMap HistoryCall.time?).Pairwise (· ≤ ·) →
    ∃ u, (Run.final HistoryCall.apply C calls).Consistent u
  | [], C, t, hC, _, _, _ => ⟨t, hC⟩
  | call :: rest, C, t, hC, hms, hle, hmono => by
    have hms' : 0 < (call.apply C).bucketMs := by rwa [(apply_settings C call).1]
    rw [Run.final_cons]
    cases call with
    | record h ok now =>
      obtain ⟨hrest, hmono'⟩ := List.pairwise_cons.mp hmono
      exact exists_consistent rest _ now (hC.record hms (hle now List.mem_cons_self)) hms'
        hrest hmono'
    | forget h => exact exists_consistent rest _ t hC.forget hms' hle hmono
    | sweep now retain =>
      obtain ⟨hrest, hmono'⟩ := List.pairwise_cons.mp hmono
      have hnow := (hC.sweep now retain).mono hms' (hle now List.mem_cons_self)
      exact exists_consistent rest _ now hnow hms' hrest hmono'

/-- What a history promises. -/
structure Bounded (C : FailureCorrelation) : Prop where
  /-- No bucket is both up and down for a holder. -/
  apart : ∀ h b, ¬(C.seen true h b = true ∧ C.seen false h b = true)
  /-- A holder has no more buckets than the window. -/
  length_le : ∀ h ∈ C.holders,
    (((C.bucketsOf true h).keys.length + (C.bucketsOf false h).keys.length : Nat) : Int) ≤
      C.retainBuckets + 1
  /-- A holder that a sweep leaves has a bucket inside the window. -/
  recent : ∀ now, ∀ h ∈ (C.sweep now none).1.holders,
    ∃ ok b, (C.sweep now none).1.seen ok h b = true ∧ now / C.bucketMs - C.retainBuckets ≤ b

/-- A history keeps its promises as long as the clock does not go back. -/
theorem history_bounded (heartbeatIntervalMs : { ms : Int // 0 < ms })
    (retainBuckets : Option Int) (calls : List HistoryCall)
    (hmono : (calls.filterMap HistoryCall.time?).Pairwise (· ≤ ·)) :
    (run heartbeatIntervalMs retainBuckets calls).Bounded := by
  have hstart : ∃ t, ∀ s ∈ calls.filterMap HistoryCall.time?, t ≤ s := by
    cases htimes : calls.filterMap HistoryCall.time? with
    | nil => exact ⟨0, fun s hs => absurd hs List.not_mem_nil⟩
    | cons first later =>
      rw [htimes] at hmono
      refine ⟨first, fun s hs => ?_⟩
      rcases List.mem_cons.mp hs with rfl | hs
      · exact le_rfl
      · exact (List.pairwise_cons.mp hmono).1 s hs
  obtain ⟨t, ht⟩ := hstart
  obtain ⟨u, hu⟩ := exists_consistent calls (new heartbeatIntervalMs retainBuckets) t
    (consistent_new heartbeatIntervalMs retainBuckets t) heartbeatIntervalMs.2 ht hmono
  exact ⟨fun h b hboth => hu.apart h b hboth.1 hboth.2, fun h hh => hu.length_le hh,
    fun now h hh => recent_of_mem_sweep hh⟩

theorem normalHeartbeat_pos : (0 : Int) < 4 * 60 * 60 * 1000 := by decide

/-- The heartbeat interval of the production profile. -/
def normalHeartbeat : { ms : Int // 0 < ms } := ⟨4 * 60 * 60 * 1000, normalHeartbeat_pos⟩

/-- A holder that recovers within a bucket did not fail in it. -/
theorem history_bounded_recovered :
    ¬((run normalHeartbeat none [.record "aa" false 10, .record "aa" true 20,
        .forget "bb", .sweep 30 none]).seen true "aa" 0 = true ∧
      (run normalHeartbeat none [.record "aa" false 10, .record "aa" true 20,
        .forget "bb", .sweep 30 none]).seen false "aa" 0 = true) :=
  (history_bounded normalHeartbeat none [.record "aa" false 10, .record "aa" true 20,
    .forget "bb", .sweep 30 none] (by decide)).apart "aa" 0

end FailureCorrelation

end NeuronWeb
