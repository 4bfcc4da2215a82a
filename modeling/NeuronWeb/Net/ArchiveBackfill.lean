/-
  Net/ArchiveBackfill: when a relay may ask its peers for what it was asked for and did not
  have (`engine/net/archive-backfill.ts`).

  A request for a key that nobody has ever heard of is the common one, so the limiter refuses:
  per key while an ask is outstanding, while it cools down and once it was asked too often, and
  over all keys by what is outstanding and by a rolling minute.
-/
import NeuronWeb.Foundation.MapSum
import NeuronWeb.Foundation.Run

set_option autoImplicit false

namespace NeuronWeb

structure BackfillPolicy where
  /-- Minimum gap between requests for the same key, before backoff. -/
  cooldownMs : Int
  /-- Outstanding requests allowed at once. -/
  maxInFlight : Nat
  /-- How long a request counts as outstanding before the slot is reclaimed. -/
  inFlightTtlMs : Int
  /-- Ceiling across all keys, per rolling minute. -/
  maxPerMinute : Nat
  /-- Consecutive unanswered attempts before a key is abandoned. -/
  maxAttempts : Nat
  /-- How long a key is remembered after its last ask. -/
  forgetAfterMs : Int

/-- `DEFAULT_BACKFILL_POLICY`. -/
def defaultBackfillPolicy : BackfillPolicy where
  cooldownMs := 60000
  maxInFlight := 8
  inFlightTtlMs := 15000
  maxPerMinute := 60
  maxAttempts := 3
  forgetAfterMs := 3600000

structure KeyState where
  /-- When the last request went out. -/
  lastAskedAt : Int
  /-- Consecutive requests that produced nothing. -/
  attempts : Nat
  /-- Set while a request is outstanding. -/
  inFlightSince : Option Int

/-- Why an ask was made. -/
inductive AskReason
  | firstMiss
  | cooldownElapsed

/-- Why it was not. -/
inductive RefuseReason
  | alreadyInFlight
  | coolingDown
  | tooManyInFlight
  | rateCeiling
  | givingUp

inductive BackfillDecision
  | ask (reason : AskReason)
  | refuse (reason : RefuseReason)

structure BackfillLimiter where
  policy : BackfillPolicy
  keys : JsMap String KeyState
  /-- Timestamps of recent asks. -/
  recent : List Int

/-! ## The limiter -/

namespace KeyState

/-- The slot of a request that was never answered is given back; the attempts are kept. -/
def reclaim (p : BackfillPolicy) (now : Int) (st : KeyState) : KeyState :=
  match st.inFlightSince with
  | some since => if now - since ≥ p.inFlightTtlMs then { st with inFlightSince := none } else st
  | none => st

/-- A key nothing is waiting on is forgotten by its age. -/
def forgotten (p : BackfillPolicy) (now : Int) (st : KeyState) : Bool :=
  st.inFlightSince.isNone && decide (now - st.lastAskedAt ≥ p.forgetAfterMs)

end KeyState

namespace BackfillLimiter

def new (p : BackfillPolicy) : BackfillLimiter := ⟨p, .empty, []⟩

/-- The part of the log that `expire` keeps: it looks at the head only. -/
def recentAt (now : Int) (recent : List Int) : List Int :=
  let cutoff := now - 60000
  match recent with
  | [] => []
  | t :: rest => if t ≤ cutoff then (t :: rest).filter fun t => decide (t > cutoff) else t :: rest

/-- Reclaim slots whose requests were never answered, and age out the window. -/
def expire (l : BackfillLimiter) (now : Int) : BackfillLimiter where
  policy := l.policy
  keys := (l.keys.mapValues (KeyState.reclaim l.policy now)).filter fun _ st =>
    !st.forgotten l.policy now
  recent := recentAt now l.recent

/-- Exponential per-key backoff: once, twice, four times the cooldown. -/
def backoffFor (l : BackfillLimiter) (attempts : Nat) : Int :=
  l.policy.cooldownMs * 2 ^ (attempts - 1)

def inFlightCount (l : BackfillLimiter) : Nat :=
  (l.keys.values.filter fun st => st.inFlightSince.isSome).length

/-- The part of `request` after `expire`. -/
def decideAt (l : BackfillLimiter) (key : String) (now : Int) : BackfillDecision :=
  let st := l.keys.get? key
  if st.any fun st => st.inFlightSince.isSome then .refuse .alreadyInFlight
  else if st.any fun st => decide (st.attempts ≥ l.policy.maxAttempts) then .refuse .givingUp
  else if st.any fun st => decide (now - st.lastAskedAt < l.backoffFor st.attempts) then
    .refuse .coolingDown
  else if l.inFlightCount ≥ l.policy.maxInFlight then .refuse .tooManyInFlight
  else if l.recent.length ≥ l.policy.maxPerMinute then .refuse .rateCeiling
  else .ask (if st.isSome then .cooldownElapsed else .firstMiss)

/-- An ask is recorded. -/
def record (l : BackfillLimiter) (key : String) (now : Int) : BackfillLimiter :=
  { l with
    keys := l.keys.set key
      { lastAskedAt := now
        attempts := (((l.keys.get? key).map KeyState.attempts).getD 0) + 1
        inFlightSince := some now }
    recent := l.recent ++ [now] }

/-- May we ask peers for `key` right now? -/
def request (l : BackfillLimiter) (key : String) (now : Int) :
    BackfillLimiter × BackfillDecision :=
  let l' := l.expire now
  match l'.decideAt key now with
  | .refuse reason => (l', .refuse reason)
  | .ask reason => (l'.record key now, .ask reason)

/-- An answer arrived for `key`. -/
def settle (l : BackfillLimiter) (key : String) : BackfillLimiter :=
  { l with keys := l.keys.delete key }

structure Stats where
  tracked : Nat
  inFlight : Nat
  lastMinute : Nat

def stats (l : BackfillLimiter) (now : Int) : BackfillLimiter × Stats :=
  let l' := l.expire now
  (l', ⟨l'.keys.keys.length, l'.inFlightCount, l'.recent.length⟩)

end BackfillLimiter

/-! ## What was asked, and when -/

/-- The calls of the relay. -/
inductive BackfillCall
  | request (key : String) (now : Int)
  | settle (key : String)
  | stats (now : Int)

/-- What an observer of the calls writes down. -/
inductive BackfillEvent
  | asked (key : String) (now : Int)
  | settled (key : String)

/-- The limiter, the time of the last call that had one, and what happened, newest first. -/
structure WatchedBackfill where
  limiter : BackfillLimiter
  clock : Int
  events : List BackfillEvent

namespace BackfillEvent

/-- The time of an ask. -/
def askTime : BackfillEvent → Option Int
  | asked _ now => some now
  | settled _ => none

/-- The times a key was asked for since it was last settled, newest first. -/
def asksOf (key : String) : List BackfillEvent → List Int
  | [] => []
  | asked key' now :: rest => if key' = key then now :: asksOf key rest else asksOf key rest
  | settled key' :: rest => if key' = key then [] else asksOf key rest

end BackfillEvent

namespace WatchedBackfill

def new (p : BackfillPolicy) (start : Int) : WatchedBackfill := ⟨.new p, start, []⟩

def askTimes (w : WatchedBackfill) : List Int := w.events.filterMap BackfillEvent.askTime

def asksOf (w : WatchedBackfill) (key : String) : List Int := BackfillEvent.asksOf key w.events

def step (w : WatchedBackfill) : BackfillCall → WatchedBackfill
  | .request key now =>
    let answer := w.limiter.request key now
    match answer.2 with
    | .ask _ => ⟨answer.1, now, .asked key now :: w.events⟩
    | .refuse _ => ⟨answer.1, now, w.events⟩
  | .settle key => ⟨w.limiter.settle key, w.clock, .settled key :: w.events⟩
  | .stats now => ⟨(w.limiter.stats now).1, now, w.events⟩

/-- Time does not go back. -/
def NotBefore (w : WatchedBackfill) : BackfillCall → Prop
  | .request _ now => w.clock ≤ now
  | .settle _ => True
  | .stats now => w.clock ≤ now

instance (w : WatchedBackfill) (call : BackfillCall) : Decidable (w.NotBefore call) :=
  match call with
  | .request _ now => inferInstanceAs (Decidable (w.clock ≤ now))
  | .settle _ => isTrue trivial
  | .stats now => inferInstanceAs (Decidable (w.clock ≤ now))

end WatchedBackfill

namespace BackfillPolicy

/-- How many asks, newest first, belong to the run of asks that the newest is in: a key not
asked for in `forgetAfterMs` starts again. -/
def streak (p : BackfillPolicy) : List Int → Nat
  | [] => 0
  | [_] => 1
  | t :: u :: rest => if p.forgetAfterMs ≤ t - u then 1 else p.streak (u :: rest) + 1

/-- Every ask, newest first, is the first after the key was forgotten, or it keeps its distance
from the one before and there were not `maxAttempts` yet. -/
def Spaced (p : BackfillPolicy) : List Int → Prop
  | [] => True
  | [_] => True
  | t :: u :: rest => (p.forgetAfterMs ≤ t - u ∨ (p.streak (u :: rest) < p.maxAttempts ∧
      p.cooldownMs * 2 ^ (p.streak (u :: rest) - 1) ≤ t - u)) ∧ p.Spaced (u :: rest)

/-- The same with the asks counted since the key was settled, forgotten or not. -/
def SpacedSinceSettled (p : BackfillPolicy) : List Int → Prop
  | [] => True
  | [_] => True
  | t :: u :: rest => ((p.forgetAfterMs ≤ t - u ∨ p.streak (u :: rest) < p.maxAttempts) ∧
      p.cooldownMs * 2 ^ rest.length ≤ t - u) ∧ p.SpacedSinceSettled (u :: rest)

/-- A key is not forgotten while its ask may be outstanding. -/
structure Sound (p : BackfillPolicy) : Prop where
  remembers_in_flight : p.inFlightTtlMs ≤ p.forgetAfterMs
  remembers : 0 < p.forgetAfterMs

end BackfillPolicy

/-! ## The limiter remembers what it must -/

section Kept

variable {p : BackfillPolicy} {l : BackfillLimiter} {w : WatchedBackfill} {key : String}
  {now : Int}

/-- What a key's entry, or its absence, says about the asks for it. -/
def Remembers (p : BackfillPolicy) (clock : Int) (asks : List Int) : Option KeyState → Prop
  | none => ∀ t ∈ asks.head?, p.forgetAfterMs ≤ clock - t
  | some st => asks.head? = some st.lastAskedAt ∧ st.attempts = p.streak asks ∧
      (∀ since ∈ st.inFlightSince, since = st.lastAskedAt) ∧
      clock - st.lastAskedAt < p.forgetAfterMs

/-- What every call leaves in place. -/
structure BackfillKept (p : BackfillPolicy) (w : WatchedBackfill) : Prop where
  policy : w.limiter.policy = p
  remembers : ∀ key, Remembers p w.clock (w.asksOf key) (w.limiter.keys.get? key)
  spaced : ∀ key, p.Spaced (w.asksOf key)
  in_flight : w.limiter.inFlightCount ≤ p.maxInFlight
  per_minute : ∀ start, (w.askTimes.countP fun t => decide (start ≤ t ∧ t < start + 60000)) ≤
    p.maxPerMinute
  recent : ∀ cutoff, w.clock - 60000 ≤ cutoff →
    (w.askTimes.countP fun t => decide (cutoff < t)) ≤
      w.limiter.recent.countP fun t => decide (cutoff < t)
  past : ∀ t ∈ w.askTimes, t ≤ w.clock

theorem get?_expire (l : BackfillLimiter) (now : Int) (key : String) :
    (l.expire now).keys.get? key =
      ((l.keys.get? key).map (KeyState.reclaim l.policy now)).filter fun st =>
        !st.forgotten l.policy now := by
  rw [BackfillLimiter.expire, JsMap.get?_filter, JsMap.get?_mapValues]

theorem reclaim_cases (p : BackfillPolicy) (now : Int) (st : KeyState) :
    (st.reclaim p now = st ∧ ∀ since ∈ st.inFlightSince, now - since < p.inFlightTtlMs) ∨
      st.reclaim p now = { st with inFlightSince := none } := by
  unfold KeyState.reclaim
  cases hsince : st.inFlightSince with
  | none =>
    refine .inl ⟨rfl, fun since h => ?_⟩
    cases h
  | some since =>
    dsimp only
    split
    case isTrue => exact .inr rfl
    case isFalse hlt =>
      refine .inl ⟨rfl, fun since' h => ?_⟩
      cases h
      omega

theorem remembers_expire (hp : p.Sound) {clock : Int} (hnow : clock ≤ now) {asks : List Int}
    {st? : Option KeyState} (h : Remembers p clock asks st?) :
    Remembers p now asks ((st?.map (KeyState.reclaim p now)).filter fun st =>
      !st.forgotten p now) := by
  cases st? with
  | none =>
    intro t ht
    have hold := h t ht
    omega
  | some st =>
    obtain ⟨hhead, hattempts, hsince, -⟩ := h
    have hfields : (st.reclaim p now).lastAskedAt = st.lastAskedAt ∧
        (st.reclaim p now).attempts = st.attempts ∧
        ∀ since ∈ (st.reclaim p now).inFlightSince,
          since = st.lastAskedAt ∧ now - since < p.inFlightTtlMs := by
      rcases reclaim_cases p now st with ⟨heq, hlt⟩ | heq
      · rw [heq]
        exact ⟨rfl, rfl, fun since hs => ⟨hsince since hs, hlt since hs⟩⟩
      · rw [heq]
        refine ⟨rfl, rfl, fun since hs => ?_⟩
        cases hs
    obtain ⟨hlast, hatt, hflight⟩ := hfields
    rw [Option.map_some, Option.filter_some]
    split
    case isTrue hkept =>
      refine ⟨hhead.trans (congrArg some hlast.symm), hatt.trans hattempts,
        fun since hs => (hflight since hs).1.trans hlast.symm, ?_⟩
      rw [hlast]
      cases hs : (st.reclaim p now).inFlightSince with
      | some since =>
        have hbound := hflight since hs
        have := hp.remembers_in_flight
        omega
      | none =>
        rw [KeyState.forgotten, hs, hlast] at hkept
        simpa using hkept
    case isFalse hgone =>
      intro t ht
      rw [hhead] at ht
      cases ht
      rw [KeyState.forgotten, hlast] at hgone
      simp only [Bool.not_eq_true, Bool.not_eq_false', Bool.and_eq_true,
        decide_eq_true_eq] at hgone
      exact hgone.2

section

variable (l : BackfillLimiter)

theorem inFlightCount_eq_total :
    l.inFlightCount = l.keys.total fun st => if st.inFlightSince.isSome then 1 else 0 := by
  rw [BackfillLimiter.inFlightCount, JsMap.total, ← List.countP_eq_length_filter]
  generalize l.keys.values = states
  induction states with
  | nil => rfl
  | cons st rest ih =>
    rw [List.countP_cons, List.map_cons, List.sum_cons, ih, Nat.add_comm]

theorem inFlightCount_expire_le (now : Int) : (l.expire now).inFlightCount ≤ l.inFlightCount := by
  rw [inFlightCount_eq_total, inFlightCount_eq_total]
  refine (JsMap.total_filter_le _ _ _).trans ?_
  rw [JsMap.total, JsMap.total, JsMap.values_mapValues, List.map_map]
  refine List.sum_le_sum fun st _ => ?_
  rcases reclaim_cases l.policy now st with ⟨heq, -⟩ | heq
  · rw [Function.comp_apply, heq]
  · rw [Function.comp_apply, heq]
    exact Nat.zero_le _

theorem inFlightCount_record_le (key : String) (now : Int) :
    (l.record key now).inFlightCount ≤ l.inFlightCount + 1 := by
  have hset := JsMap.total_set (fun st : KeyState => if st.inFlightSince.isSome then 1 else 0)
    l.keys key
    { lastAskedAt := now
      attempts := (((l.keys.get? key).map KeyState.attempts).getD 0) + 1
      inFlightSince := some now }
  rw [inFlightCount_eq_total, inFlightCount_eq_total]
  dsimp only [BackfillLimiter.record]
  simp only [Option.isSome_some, if_true] at hset
  omega

theorem inFlightCount_settle_le (key : String) :
    (l.settle key).inFlightCount ≤ l.inFlightCount := by
  rw [inFlightCount_eq_total, inFlightCount_eq_total]
  exact JsMap.total_filter_le _ _ _

end

theorem countP_recentAt {cutoff : Int} (hcutoff : now - 60000 ≤ cutoff) (recent : List Int) :
    ((BackfillLimiter.recentAt now recent).countP fun t => decide (cutoff < t)) =
      recent.countP fun t => decide (cutoff < t) := by
  cases recent with
  | nil => rfl
  | cons t rest =>
    dsimp only [BackfillLimiter.recentAt]
    split
    case isTrue =>
      rw [List.countP_filter]
      refine List.countP_congr fun u _ => ?_
      simp only [Bool.and_eq_true, decide_eq_true_eq]
      omega
    case isFalse => rfl

theorem kept_expire (hp : p.Sound) (h : BackfillKept p w) (hnow : w.clock ≤ now) :
    BackfillKept p ⟨w.limiter.expire now, now, w.events⟩ where
  policy := h.policy
  remembers key := by
    have hremembers := remembers_expire hp hnow (h.remembers key)
    rw [← h.policy] at hremembers ⊢
    rw [get?_expire]
    exact hremembers
  spaced := h.spaced
  in_flight := (inFlightCount_expire_le w.limiter now).trans h.in_flight
  per_minute := h.per_minute
  recent cutoff hcutoff := by
    have hold := h.recent cutoff (by dsimp only at hcutoff; omega)
    dsimp only [BackfillLimiter.expire] at hcutoff ⊢
    rw [countP_recentAt hcutoff]
    exact hold
  past t ht := (h.past t ht).trans hnow

/-- What was checked before an ask. -/
structure Askable (p : BackfillPolicy) (l : BackfillLimiter) (key : String) (now : Int) : Prop where
  attempts : ∀ st ∈ l.keys.get? key, st.attempts < p.maxAttempts
  cooled : ∀ st ∈ l.keys.get? key,
    p.cooldownMs * 2 ^ (st.attempts - 1) ≤ now - st.lastAskedAt
  slot : l.inFlightCount < p.maxInFlight
  rate : l.recent.length < p.maxPerMinute

theorem askable_of_decideAt {reason : AskReason} (h : l.decideAt key now = .ask reason) :
    Askable l.policy l key now := by
  unfold BackfillLimiter.decideAt at h
  dsimp only at h
  split at h
  case isTrue => cases h
  case isFalse =>
    split at h
    case isTrue => cases h
    case isFalse hattempts =>
      split at h
      case isTrue => cases h
      case isFalse hcooled =>
        split at h
        case isTrue => cases h
        case isFalse hslot =>
          split at h
          case isTrue => cases h
          case isFalse hrate =>
            refine ⟨fun st hst => ?_, fun st hst => ?_, not_le.mp hslot, not_le.mp hrate⟩
            · rw [Option.mem_def.mp hst] at hattempts
              simpa using hattempts
            · rw [Option.mem_def.mp hst] at hcooled
              exact not_lt.mp fun hlt => hcooled (decide_eq_true hlt)

theorem asksOf_asked (w : WatchedBackfill) (l : BackfillLimiter) (clock : Int)
    (key key' : String) (now : Int) :
    WatchedBackfill.asksOf ⟨l, clock, .asked key' now :: w.events⟩ key =
      if key' = key then now :: w.asksOf key else w.asksOf key := rfl

theorem asksOf_settled (w : WatchedBackfill) (l : BackfillLimiter) (clock : Int)
    (key key' : String) :
    WatchedBackfill.asksOf ⟨l, clock, .settled key' :: w.events⟩ key =
      if key' = key then [] else w.asksOf key := rfl

theorem spaced_cons {asks : List Int} {st? : Option KeyState} (h : Remembers p now asks st?)
    (hspaced : p.Spaced asks) (hattempts : ∀ st ∈ st?, st.attempts < p.maxAttempts)
    (hcooled : ∀ st ∈ st?, p.cooldownMs * 2 ^ (st.attempts - 1) ≤ now - st.lastAskedAt) :
    p.Spaced (now :: asks) := by
  cases asks with
  | nil => trivial
  | cons u rest =>
    refine ⟨?_, hspaced⟩
    cases st? with
    | none => exact .inl (h u rfl)
    | some st =>
      obtain ⟨hhead, hstreak, -, -⟩ := h
      have hlast : u = st.lastAskedAt := Option.some_inj.mp hhead
      rw [← hstreak, hlast]
      exact .inr ⟨hattempts st rfl, hcooled st rfl⟩

theorem remembers_cons (hp : p.Sound) {asks : List Int} {st? : Option KeyState}
    (h : Remembers p now asks st?) :
    Remembers p now (now :: asks) (some
      { lastAskedAt := now
        attempts := ((st?.map KeyState.attempts).getD 0) + 1
        inFlightSince := some now }) := by
  refine ⟨rfl, ?_, fun since hsince => (Option.some_inj.mp hsince).symm, ?_⟩
  · cases st? with
    | none =>
      cases asks with
      | nil => rfl
      | cons u rest =>
        rw [BackfillPolicy.streak, if_pos (h u rfl)]
        rfl
    | some st =>
      obtain ⟨hhead, hstreak, -, hfresh⟩ := h
      cases asks with
      | nil => cases hhead
      | cons u rest =>
        have hlast : u = st.lastAskedAt := Option.some_inj.mp hhead
        rw [BackfillPolicy.streak, if_neg (by omega), ← hstreak]
        rfl
  · have := hp.remembers
    dsimp only
    omega

theorem kept_record (hp : p.Sound) (h : BackfillKept p w) (hask : Askable p w.limiter key w.clock) :
    BackfillKept p ⟨w.limiter.record key w.clock, w.clock, .asked key w.clock :: w.events⟩ where
  policy := h.policy
  remembers key' := by
    rw [asksOf_asked, BackfillLimiter.record, JsMap.get?_set]
    split
    case isTrue heq =>
      subst heq
      exact remembers_cons hp (h.remembers key)
    case isFalse => exact h.remembers key'
  spaced key' := by
    rw [asksOf_asked]
    split
    case isTrue heq =>
      subst heq
      exact spaced_cons (h.remembers key) (h.spaced key) hask.attempts hask.cooled
    case isFalse => exact h.spaced key'
  in_flight := (inFlightCount_record_le w.limiter key w.clock).trans hask.slot
  per_minute start := by
    change ((w.clock :: w.askTimes).countP _) ≤ _
    rw [List.countP_cons]
    split
    case isTrue hin =>
      -- all the asks of the window are still in the log
      have hstart := of_decide_eq_true hin
      have hlog := h.recent (start - 1) (by omega)
      have hwindow : (w.askTimes.countP fun t => decide (start ≤ t ∧ t < start + 60000)) ≤
          w.askTimes.countP fun t => decide (start - 1 < t) := by
        refine List.countP_mono_left fun t _ ht => ?_
        have hbounds := of_decide_eq_true ht
        exact decide_eq_true (by omega)
      have hlength := List.countP_le_length (p := fun t => decide (start - 1 < t))
        (l := w.limiter.recent)
      have hrate := hask.rate
      omega
    case isFalse => exact h.per_minute start
  recent cutoff hcutoff := by
    have hold := h.recent cutoff hcutoff
    change ((w.clock :: w.askTimes).countP _) ≤ (w.limiter.recent ++ [w.clock]).countP _
    rw [List.countP_cons, List.countP_append, List.countP_singleton]
    omega
  past t ht := by
    rcases List.mem_cons.mp ht with rfl | ht
    · exact le_rfl
    · exact h.past t ht

theorem kept_settle (h : BackfillKept p w) (key : String) :
    BackfillKept p ⟨w.limiter.settle key, w.clock, .settled key :: w.events⟩ where
  policy := h.policy
  remembers key' := by
    rw [asksOf_settled, BackfillLimiter.settle, JsMap.get?_delete]
    split
    case isTrue =>
      intro t ht
      cases ht
    case isFalse => exact h.remembers key'
  spaced key' := by
    rw [asksOf_settled]
    split
    case isTrue => trivial
    case isFalse => exact h.spaced key'
  in_flight := (inFlightCount_settle_le w.limiter key).trans h.in_flight
  per_minute := h.per_minute
  recent := h.recent
  past := h.past

theorem kept_step (hp : p.Sound) (h : BackfillKept p w) (call : BackfillCall)
    (hcall : w.NotBefore call) : BackfillKept p (w.step call) := by
  cases call with
  | settle key => exact kept_settle h key
  | stats now => exact kept_expire hp h hcall
  | request key now =>
    have hexpire := kept_expire hp h hcall
    cases hdecide : (w.limiter.expire now).decideAt key now with
    | refuse reason =>
      have hstep : w.step (.request key now) = ⟨w.limiter.expire now, now, w.events⟩ := by
        rw [WatchedBackfill.step, BackfillLimiter.request, hdecide]
      rw [hstep]
      exact hexpire
    | ask reason =>
      have hstep : w.step (.request key now) =
          ⟨(w.limiter.expire now).record key now, now, .asked key now :: w.events⟩ := by
        rw [WatchedBackfill.step, BackfillLimiter.request, hdecide]
      have hask := askable_of_decideAt hdecide
      rw [hexpire.policy] at hask
      rw [hstep]
      exact kept_record hp hexpire hask

theorem kept_new (p : BackfillPolicy) (start : Int) : BackfillKept p (.new p start) where
  policy := rfl
  remembers key t ht := by cases ht
  spaced key := trivial
  in_flight := Nat.zero_le _
  per_minute _ := Nat.zero_le _
  recent _ _ := le_rfl
  past t ht := by cases ht

end Kept

/-! ## The keys that are tracked -/

section Tracked

variable {p : BackfillPolicy} {w : WatchedBackfill}

theorem countP_le_add {q r s : Int → Bool} (h : ∀ t, q t = true → r t = true ∨ s t = true)
    (times : List Int) : times.countP q ≤ times.countP r + times.countP s := by
  induction times with
  | nil => exact Nat.zero_le _
  | cons t rest ih =>
    rw [List.countP_cons, List.countP_cons, List.countP_cons]
    by_cases hq : q t = true
    · rcases h t hq with hr | hs
      · rw [if_pos hq, if_pos hr]
        omega
      · rw [if_pos hq, if_pos hs]
        omega
    · rw [if_neg hq]
      omega

theorem countP_minutes_le {times : List Int} {perMinute : Nat}
    (h : ∀ start, (times.countP fun t => decide (start ≤ t ∧ t < start + 60000)) ≤ perMinute)
    (start : Int) (minutes : Nat) :
    (times.countP fun t => decide (start ≤ t ∧ t < start + minutes * 60000)) ≤
      minutes * perMinute := by
  induction minutes with
  | zero =>
    rw [Nat.zero_mul, Nat.le_zero, List.countP_eq_zero]
    intro t _
    rw [decide_eq_true_iff]
    omega
  | succ n ih =>
    have hlast := h (start + n * 60000)
    have hsplit := countP_le_add (q := fun t => decide (start ≤ t ∧ t <
        start + (n + 1 : Nat) * 60000))
      (r := fun t => decide (start ≤ t ∧ t < start + n * 60000))
      (s := fun t => decide (start + n * 60000 ≤ t ∧ t < start + n * 60000 + 60000))
      (fun t ht => by
        have hbounds := of_decide_eq_true ht
        rw [decide_eq_true_iff, decide_eq_true_iff]
        omega) times
    rw [Nat.succ_mul]
    omega

namespace BackfillEvent

/-- The key and the time of an ask. -/
def ask : BackfillEvent → Option (String × Int)
  | asked key now => some (key, now)
  | settled _ => none

end BackfillEvent

namespace WatchedBackfill

/-- The asks, with their keys. -/
def asks (w : WatchedBackfill) : List (String × Int) := w.events.filterMap BackfillEvent.ask

end WatchedBackfill

theorem askTimes_eq_map (w : WatchedBackfill) : w.askTimes = w.asks.map Prod.snd := by
  rw [WatchedBackfill.askTimes, WatchedBackfill.asks, List.map_filterMap]
  refine List.filterMap_congr fun e _ => ?_
  cases e <;> rfl

theorem mem_asks_of_mem_asksOf {key : String} {t : Int} (h : t ∈ w.asksOf key) :
    (key, t) ∈ w.asks := by
  obtain ⟨l, clock, events⟩ := w
  change t ∈ BackfillEvent.asksOf key events at h
  change (key, t) ∈ events.filterMap BackfillEvent.ask
  induction events with
  | nil => cases h
  | cons e rest ih =>
    cases e with
    | asked key' now =>
      have hask : BackfillEvent.ask (.asked key' now) = some (key', now) := rfl
      rw [BackfillEvent.asksOf] at h
      rw [List.filterMap_cons_some hask]
      split at h
      case isTrue heq =>
        subst heq
        rcases List.mem_cons.mp h with rfl | h
        · exact List.mem_cons_self
        · exact List.mem_cons_of_mem _ (ih h)
      case isFalse => exact List.mem_cons_of_mem _ (ih h)
    | settled key' =>
      rw [BackfillEvent.asksOf] at h
      rw [List.filterMap_cons_none rfl]
      split at h
      case isTrue => cases h
      case isFalse => exact ih h

theorem tracked_le (h : BackfillKept p w) :
    w.limiter.keys.keys.length ≤
      w.askTimes.countP fun t => decide (w.clock - p.forgetAfterMs < t) := by
  have hlast : ∀ e ∈ w.limiter.keys.entries, (e.1, e.2.lastAskedAt) ∈ w.asks ∧
      w.clock - p.forgetAfterMs < e.2.lastAskedAt := by
    intro e he
    have hentry := h.remembers e.1
    rw [(w.limiter.keys.get?_eq_some_iff e.1 e.2).mpr he] at hentry
    obtain ⟨hhead, -, -, hfresh⟩ := hentry
    exact ⟨mem_asks_of_mem_asksOf (List.mem_of_head? hhead), by omega⟩
  have hnodup : (w.limiter.keys.entries.map fun e => (e.1, e.2.lastAskedAt)).Nodup := by
    refine List.Nodup.of_map Prod.fst ?_
    rw [List.map_map]
    exact w.limiter.keys.nodup
  have hsubset : (w.limiter.keys.entries.map fun e => (e.1, e.2.lastAskedAt)) ⊆
      w.asks.filter fun a => decide (w.clock - p.forgetAfterMs < a.2) := by
    intro a ha
    obtain ⟨e, he, rfl⟩ := List.mem_map.mp ha
    exact List.mem_filter.mpr ⟨(hlast e he).1, decide_eq_true (hlast e he).2⟩
  have hlength := (List.subperm_of_subset hnodup hsubset).length_le
  rw [List.length_map, ← List.countP_eq_length_filter] at hlength
  rw [JsMap.keys, List.length_map, askTimes_eq_map, List.countP_map]
  exact hlength

theorem tracked_le_of_minutes (h : BackfillKept p w) (minutes : Nat)
    (hminutes : p.forgetAfterMs = minutes * 60000) :
    w.limiter.keys.keys.length ≤ minutes * p.maxPerMinute := by
  refine (tracked_le h).trans ((List.countP_mono_left fun t ht hfresh => ?_).trans
    (countP_minutes_le h.per_minute (w.clock - p.forgetAfterMs + 1) minutes))
  have hpast := h.past t ht
  have hbound := of_decide_eq_true hfresh
  exact decide_eq_true (by omega)

end Tracked

/-! ## The ceilings -/

/-- The four ceilings of a limiter that was watched, with `spaced` for what is promised of the
asks for one key since it was last settled. -/
structure BackfillCeilings (p : BackfillPolicy) (spaced : List Int → Prop) (w : WatchedBackfill) :
    Prop where
  in_flight : w.limiter.inFlightCount ≤ p.maxInFlight
  per_minute : ∀ start, (w.askTimes.countP fun t => decide (start ≤ t ∧ t < start + 60000)) ≤
    p.maxPerMinute
  spaced : ∀ key, spaced (w.asksOf key)
  tracked : (w.limiter.keys.keys.length : Int) ≤
    p.maxPerMinute * (p.forgetAfterMs / 60000 + 1)

/-- At every moment of every sequence of calls. -/
theorem backfill_ceilings (start : Int) (calls : List BackfillCall)
    (hcalls : Run.StepsMeet WatchedBackfill.step WatchedBackfill.NotBefore
      (.new defaultBackfillPolicy start) calls) :
    Run.Always WatchedBackfill.step
      (BackfillCeilings defaultBackfillPolicy defaultBackfillPolicy.Spaced)
      (.new defaultBackfillPolicy start) calls := by
  have hsound : defaultBackfillPolicy.Sound := ⟨by decide, by decide⟩
  refine Run.always_of_invariant (C := WatchedBackfill.NotBefore)
    (I := BackfillKept defaultBackfillPolicy)
    (fun w call hw hcall => kept_step hsound hw call hcall) (fun w hw => ?_)
    (kept_new _ start) hcalls
  have htracked : w.limiter.keys.keys.length ≤ 60 * 60 :=
    tracked_le_of_minutes hw 60 rfl
  refine ⟨hw.in_flight, hw.per_minute, hw.spaced, ?_⟩
  change (w.limiter.keys.keys.length : Int) ≤ 60 * (3600000 / 60000 + 1)
  omega

/-- A key asked for at the start, an hour later and a minute after that. -/
def forgottenKeyCalls : List BackfillCall :=
  [.request "testnet:ghost" 0, .request "testnet:ghost" 3600000, .request "testnet:ghost" 3660000]

theorem backfill_ceilings_of_forgotten_key :
    Run.StepsMeet WatchedBackfill.step WatchedBackfill.NotBefore
        (.new defaultBackfillPolicy 0) forgottenKeyCalls ∧
      Run.Always WatchedBackfill.step
        (BackfillCeilings defaultBackfillPolicy defaultBackfillPolicy.Spaced)
        (.new defaultBackfillPolicy 0) forgottenKeyCalls := by
  have hcalls : Run.StepsMeet WatchedBackfill.step WatchedBackfill.NotBefore
      (.new defaultBackfillPolicy 0) forgottenKeyCalls := by
    refine ⟨?_, ?_, ?_, trivial⟩
    · decide +kernel
    · decide +kernel
    · decide +kernel
  exact ⟨hcalls, backfill_ceilings 0 forgottenKeyCalls hcalls⟩

/-- The hour starts the backoff again, so the third ask comes a minute after the second. -/
theorem not_backfill_ceilings_since_settled :
    Run.StepsMeet WatchedBackfill.step WatchedBackfill.NotBefore
        (.new defaultBackfillPolicy 0) forgottenKeyCalls ∧
      ¬ Run.Always WatchedBackfill.step
        (BackfillCeilings defaultBackfillPolicy defaultBackfillPolicy.SpacedSinceSettled)
        (.new defaultBackfillPolicy 0) forgottenKeyCalls := by
  refine ⟨?_, fun h => ?_⟩
  · refine ⟨?_, ?_, ?_, trivial⟩
    · decide +kernel
    · decide +kernel
    · decide +kernel
  · have hspaced := h.2.2.2.spaced "testnet:ghost"
    have hasks : (Run.final WatchedBackfill.step (.new defaultBackfillPolicy 0)
        forgottenKeyCalls).asksOf "testnet:ghost" = [3660000, 3600000, 0] := by decide +kernel
    have hlate := (hasks ▸ hspaced : defaultBackfillPolicy.SpacedSinceSettled
      [3660000, 3600000, 0]).1.2
    revert hlate
    decide +kernel

end NeuronWeb
