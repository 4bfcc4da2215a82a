/-
  Recovery/PinLockout: the count of wrong PINs on a device (`core/pin-crypto.ts`).

  A wrong PIN is counted by reading the stored count, adding one and writing the record back,
  with an await between the read and the write and no transaction around them.

  The stored count is the number of failures since the last success as long as no failure writes
  after the count that it has read has moved on (`counts_failures_iff`).
-/
import NeuronWeb.Core.Hash
import NeuronWeb.Foundation.Run

set_option autoImplicit false

namespace NeuronWeb

/-! ## The record -/

/-- `MAX_DELAY_MS`: 24 hours. -/
def maxDelayMs : Int := 86400000

/-- `FREE_ATTEMPTS`. -/
def freeAttempts : Nat := 3

structure PinAttemptState where
  accountPub : Hex
  failedAttempts : Nat
  /-- Unix ms, 0 when not locked. -/
  lockedUntil : Int
  lastAttemptAt : Int

/-- Nothing for the free attempts, then 30 seconds and four times as much with each. -/
def getBackoffMs (attempts : Nat) : Int :=
  if attempts ≤ freeAttempts then 0
  else min maxDelayMs (30 * 4 ^ (attempts - freeAttempts - 1) * 1000)

/-- The store `pinAttempts`, keyed by account. -/
abbrev PinStore := JsMap Hex PinAttemptState

def getPinAttemptState (store : PinStore) (accountPub : Hex) : PinAttemptState :=
  (store.get? accountPub).getD ⟨accountPub, 0, 0, 0⟩

/-- What `checkPinLockout` makes of the record: the time that is left when it is locked. -/
def lockoutOf (state : PinAttemptState) (now : Int) : Option Int :=
  if state.lockedUntil > now then some (state.lockedUntil - now) else none

/-- What `recordPinFailure` writes after it has read `state`.  It asks for the time twice. -/
def failureOf (accountPub : Hex) (state : PinAttemptState) (now later : Int) : PinAttemptState where
  accountPub := accountPub
  failedAttempts := state.failedAttempts + 1
  lockedUntil := now + getBackoffMs (state.failedAttempts + 1)
  lastAttemptAt := later

/-- What `recordPinSuccess` writes. -/
def successOf (accountPub : Hex) (now : Int) : PinAttemptState := ⟨accountPub, 0, 0, now⟩

/-! ## Calls, interleaved at their awaits -/

/-- A running call, at the await where it stands. -/
inductive PinCall where
  /-- `checkPinLockout`, before its read. -/
  | check (accountPub : Hex)
  /-- ... with what it has read. -/
  | checked (state : PinAttemptState)
  /-- `recordPinFailure`, before its read. -/
  | failure (accountPub : Hex)
  /-- ... with what it has read. -/
  | failureRead (accountPub : Hex) (state : PinAttemptState)
  /-- ... its write has been issued at `now`. -/
  | failureWrite (accountPub : Hex) (state : PinAttemptState) (now later : Int)
  /-- `recordPinSuccess`, before the database is open. -/
  | success (accountPub : Hex)
  /-- ... its write has been issued. -/
  | successWrite (accountPub : Hex) (now : Int)
  /-- The call has returned; a check with the time that is left. -/
  | returned (answer : Option Int)

/-- A write that has reached the store. -/
inductive PinRecord where
  | failed (accountPub : Hex) (time : Int)
  | succeeded (accountPub : Hex)

/-- The store, the calls of all tabs, and the writes so far, the latest first. -/
structure PinDesk where
  store : PinStore
  calls : List PinCall
  records : List PinRecord

inductive PinEvent where
  /-- A tab calls `checkPinLockout`, `recordPinFailure` or `recordPinSuccess`. -/
  | check (accountPub : Hex)
  | failure (accountPub : Hex)
  | success (accountPub : Hex)
  /-- The `i`-th call goes on to its next await, where the clock shows `now` and then `later`. -/
  | resume (i : Nat) (now later : Int)

namespace PinDesk

def new : PinDesk := ⟨.empty, [], []⟩

/-- The `i`-th call goes on. -/
def resume (d : PinDesk) (i : Nat) (now later : Int) : PinCall → PinDesk
  | .check accountPub =>
    { d with calls := d.calls.set i (.checked (getPinAttemptState d.store accountPub)) }
  | .checked state => { d with calls := d.calls.set i (.returned (lockoutOf state now)) }
  | .failure accountPub =>
    { d with
      calls := d.calls.set i (.failureRead accountPub (getPinAttemptState d.store accountPub)) }
  | .failureRead accountPub state =>
    { d with calls := d.calls.set i (.failureWrite accountPub state now later) }
  | .failureWrite accountPub state now later =>
    { store := d.store.set accountPub (failureOf accountPub state now later)
      calls := d.calls.set i (.returned none)
      records := .failed accountPub now :: d.records }
  | .success accountPub => { d with calls := d.calls.set i (.successWrite accountPub now) }
  | .successWrite accountPub now =>
    { store := d.store.set accountPub (successOf accountPub now)
      calls := d.calls.set i (.returned none)
      records := .succeeded accountPub :: d.records }
  | .returned _ => d

def step (d : PinDesk) : PinEvent → PinDesk
  | .check accountPub => { d with calls := d.calls ++ [.check accountPub] }
  | .failure accountPub => { d with calls := d.calls ++ [.failure accountPub] }
  | .success accountPub => { d with calls := d.calls ++ [.success accountPub] }
  | .resume i now later =>
    match d.calls[i]? with
    | some call => d.resume i now later call
    | none => d

end PinDesk

/-! ## The count -/

/-- The times of the failures since the last success, the latest first. -/
def failuresOf (accountPub : Hex) : List PinRecord → List Int
  | [] => []
  | .failed pub time :: rest =>
    if pub = accountPub then time :: failuresOf accountPub rest else failuresOf accountPub rest
  | .succeeded pub :: rest => if pub = accountPub then [] else failuresOf accountPub rest

/-- The stored record counts the failures of the account since its last success, and locks it from
the last of them for the time that belongs to their number. -/
structure CountsFailures (accountPub : Hex) (d : PinDesk) : Prop where
  failed : (getPinAttemptState d.store accountPub).failedAttempts =
    (failuresOf accountPub d.records).length
  locked : ∀ time, (failuresOf accountPub d.records).head? = some time →
    time + getBackoffMs (failuresOf accountPub d.records).length ≤
      (getPinAttemptState d.store accountPub).lockedUntil

/-- A failure of the account that is written has read the count that is still stored. -/
def WritesAfresh (accountPub : Hex) (d : PinDesk) : PinEvent → Prop
  | .resume i _ _ => ∀ state now later,
      d.calls[i]? = some (.failureWrite accountPub state now later) →
      (getPinAttemptState d.store accountPub).failedAttempts = state.failedAttempts
  | _ => True

section Count

variable {d : PinDesk} {accountPub pub : Hex}

theorem failuresOf_failed (accountPub pub : Hex) (time : Int) (rest : List PinRecord) :
    failuresOf accountPub (.failed pub time :: rest) =
      if pub = accountPub then time :: failuresOf accountPub rest
      else failuresOf accountPub rest := rfl

theorem failuresOf_succeeded (accountPub pub : Hex) (rest : List PinRecord) :
    failuresOf accountPub (.succeeded pub :: rest) =
      if pub = accountPub then [] else failuresOf accountPub rest := rfl

theorem counts_new (accountPub : Hex) : CountsFailures accountPub .new where
  failed := rfl
  locked time h := by cases h

theorem getPinAttemptState_set (store : PinStore) (pub accountPub : Hex) (state : PinAttemptState) :
    getPinAttemptState (store.set pub state) accountPub =
      if pub = accountPub then state else getPinAttemptState store accountPub := by
  unfold getPinAttemptState
  rw [JsMap.get?_set]
  split <;> rfl

theorem counts_failed_iff (h : CountsFailures accountPub d) {state : PinAttemptState}
    {now later : Int} {d' : PinDesk}
    (hstored : getPinAttemptState d'.store accountPub = failureOf accountPub state now later)
    (hfailures : failuresOf accountPub d'.records = now :: failuresOf accountPub d.records) :
    CountsFailures accountPub d' ↔
      (getPinAttemptState d.store accountPub).failedAttempts = state.failedAttempts := by
  constructor
  · intro hafter
    have hfailed := hafter.failed
    rw [hstored, hfailures, List.length_cons, ← h.failed] at hfailed
    exact (Nat.succ.inj hfailed).symm
  · intro hread
    have hcount : state.failedAttempts + 1 = (failuresOf accountPub d'.records).length := by
      rw [hfailures, List.length_cons, ← hread, h.failed]
    refine ⟨by rw [hstored, ← hcount]; rfl, fun time htime => ?_⟩
    rw [hfailures, List.head?_cons, Option.some.injEq] at htime
    rw [hstored, ← hcount, ← htime]
    exact le_refl _

theorem counts_succeeded {now : Int} {calls : List PinCall} :
    CountsFailures accountPub ⟨d.store.set accountPub (successOf accountPub now), calls,
      .succeeded accountPub :: d.records⟩ := by
  have hfailures : failuresOf accountPub (.succeeded accountPub :: d.records) = [] := if_pos rfl
  refine ⟨?_, fun time htime => ?_⟩
  · simp only [hfailures, getPinAttemptState_set, if_true, successOf, List.length_nil]
  · simp only [hfailures, List.head?_nil] at htime
    cases htime

theorem counts_congr {d' : PinDesk}
    (hstored : getPinAttemptState d'.store accountPub = getPinAttemptState d.store accountPub)
    (hfailures : failuresOf accountPub d'.records = failuresOf accountPub d.records) :
    CountsFailures accountPub d' ↔ CountsFailures accountPub d := by
  constructor
  · intro h
    exact ⟨hstored ▸ hfailures ▸ h.failed, hstored ▸ hfailures ▸ h.locked⟩
  · intro h
    exact ⟨by rw [hstored, hfailures]; exact h.failed,
      by rw [hstored, hfailures]; exact h.locked⟩

theorem counts_of_same (h : CountsFailures accountPub d) {d' : PinDesk}
    (hstore : d'.store = d.store) (hrecords : d'.records = d.records) :
    CountsFailures accountPub d' :=
  (counts_congr (by rw [hstore]) (by rw [hrecords])).mpr h

theorem counts_resume_iff (h : CountsFailures accountPub d) {i : Nat} (now later : Int)
    {call : PinCall} (hcall : d.calls[i]? = some call) :
    CountsFailures accountPub (d.resume i now later call) ↔
      WritesAfresh accountPub d (.resume i now later) := by
  have hafresh : WritesAfresh accountPub d (.resume i now later) ↔
      ∀ state now later, call = .failureWrite accountPub state now later →
        (getPinAttemptState d.store accountPub).failedAttempts = state.failedAttempts := by
    simp only [WritesAfresh, hcall, Option.some.injEq]
  rw [hafresh]
  cases call with
  | failureWrite pub state now' later' =>
    by_cases hpub : pub = accountPub
    · subst hpub
      refine (counts_failed_iff h ((getPinAttemptState_set ..).trans (if_pos rfl))
        ((failuresOf_failed ..).trans (if_pos rfl))).trans ?_
      constructor
      · intro hread state' now'' later'' heq
        cases heq
        exact hread
      · intro hall
        exact hall state now' later' rfl
    · refine iff_of_true ((counts_congr ?_ ((failuresOf_failed ..).trans (if_neg hpub))).mpr h)
        fun state' _ _ heq => ?_
      · exact (getPinAttemptState_set ..).trans (if_neg hpub)
      · cases heq
        exact absurd rfl hpub
  | successWrite pub now' =>
    refine iff_of_true ?_ (by simp)
    by_cases hpub : pub = accountPub
    · subst hpub
      exact counts_succeeded
    · refine (counts_congr ?_ ((failuresOf_succeeded ..).trans (if_neg hpub))).mpr h
      exact (getPinAttemptState_set ..).trans (if_neg hpub)
  | check pub => exact iff_of_true (counts_of_same h rfl rfl) (by simp)
  | checked state => exact iff_of_true (counts_of_same h rfl rfl) (by simp)
  | failure pub => exact iff_of_true (counts_of_same h rfl rfl) (by simp)
  | failureRead pub state => exact iff_of_true (counts_of_same h rfl rfl) (by simp)
  | success pub => exact iff_of_true (counts_of_same h rfl rfl) (by simp)
  | returned answer => exact iff_of_true h (by simp)

theorem counts_step_iff (h : CountsFailures accountPub d) (event : PinEvent) :
    CountsFailures accountPub (d.step event) ↔ WritesAfresh accountPub d event := by
  cases event with
  | check pub => exact iff_of_true (counts_of_same h rfl rfl) trivial
  | failure pub => exact iff_of_true (counts_of_same h rfl rfl) trivial
  | success pub => exact iff_of_true (counts_of_same h rfl rfl) trivial
  | resume i now later =>
    cases hcall : d.calls[i]? with
    | some call =>
      rw [show d.step (.resume i now later) = d.resume i now later call by
        simp only [PinDesk.step, hcall]]
      exact counts_resume_iff h now later hcall
    | none =>
      rw [show d.step (.resume i now later) = d by simp only [PinDesk.step, hcall]]
      exact iff_of_true h fun state now later hwrite => by rw [hcall] at hwrite; cases hwrite

/-- Throughout a run, whatever the calls and their interleaving, the failures of an account are all
counted if and only if every failure is written while the count that it has read is stored. -/
theorem counts_failures_iff (accountPub : Hex) (events : List PinEvent) :
    Run.Always PinDesk.step (CountsFailures accountPub) .new events ↔
      Run.StepsMeet PinDesk.step (WritesAfresh accountPub) .new events :=
  Run.always_iff_stepsMeet (I := fun _ => True) (fun _ _ _ => trivial)
    (fun _ event _ h => counts_step_iff h event) trivial (counts_new accountPub)

end Count

/-- Two tabs check that Alice is not locked, and both get a wrong PIN. -/
def twoTabs : List PinEvent :=
  [.check "alice", .check "alice", .resume 0 1 1, .resume 1 1 1, .resume 0 2 2, .resume 1 2 2,
    .failure "alice", .failure "alice", .resume 2 10 10, .resume 3 11 11, .resume 2 12 12,
    .resume 3 13 13, .resume 2 14 14, .resume 3 15 15]

/-- Both failures read a count of zero, and the record says one. -/
theorem concurrent_failures_lost :
    failuresOf "alice" (Run.final PinDesk.step .new twoTabs).records = [13, 12] ∧
    (getPinAttemptState (Run.final PinDesk.step .new twoTabs).store "alice").failedAttempts = 1 ∧
    ¬ Run.Always PinDesk.step (CountsFailures "alice") .new twoTabs := by
  have hrecords : failuresOf "alice" (Run.final PinDesk.step .new twoTabs).records = [13, 12] := by
    decide +kernel
  have hstored : (getPinAttemptState (Run.final PinDesk.step .new twoTabs).store
      "alice").failedAttempts = 1 := by
    decide +kernel
  refine ⟨hrecords, hstored, fun hall => ?_⟩
  have hcounts : CountsFailures "alice" (Run.final PinDesk.step .new twoTabs) := hall.at_final
  have hfailed := hcounts.failed
  rw [hrecords, hstored] at hfailed
  cases hfailed

end NeuronWeb
