/-
  Content/StoreRaces: calls on one content store that overlap.

  A call runs until it awaits the backend. There it waits twice: for the backend to carry the
  operation out (`perform`) and for its own turn after that (`resume`); in between, any other
  call may move. A run is any sequence of new calls and of such moves.

  `Undisturbed` is what has to be true for neither to matter; then the counter is exact and the
  quota kept (`always_accounted`).
-/
import NeuronWeb.Content.ContentStore
import NeuronWeb.Foundation.Run
import NeuronWeb.Sample

set_option autoImplicit false

namespace NeuronWeb.ContentStore

variable {F : Type}

/-! ## Calls in progress -/

/-- Where the result of `putBlock` goes. -/
inductive Caller where
  | direct
  /-- To `storeContent`, which has chunks left to write. -/
  | content (todo : List Chunk) (manifest : Manifest)

/-- How a call ended. -/
inductive Outcome where
  | stored (result : StoreResult)
  | released (freed : Nat)
  | threw

/-- A call at an `await`.  There is an answer once the backend has carried the operation out. -/
inductive Task where
  /-- The pre-check of `storeContent`: `await this.backend.has(c.cid)`. -/
  | scanning (chunk : Chunk) (todo chunks : List Chunk) (manifest : Manifest) (need : Nat)
      (answer : Option Bool)
  /-- `putBlock`: `await this.backend.has(cid)`. -/
  | checking (caller : Caller) (chunk : Chunk) (answer : Option Bool)
  /-- `this.bytesUsed += await this.backend.put(cid, bytes)`; `base` is the counter as read. -/
  | writing (caller : Caller) (chunk : Chunk) (base : Int) (answer : Option Nat)
  /-- `storeContent`: `await this.putBlock(c.cid, c.bytes)`. -/
  | returning (todo : List Chunk) (manifest : Manifest) (result : StoreResult)
  /-- `freed += await this.backend.delete(cid)`. -/
  | releasing (cid : Cid) (todo : List Cid) (freed : Nat) (answer : Option Nat)
  | finished (outcome : Outcome)

/-- The return of `putBlock`. -/
def finishPut : Caller → StoreResult → Task
  | .direct, result => .finished (.stored result)
  | .content todo manifest, result => .returning todo manifest result

/-- `putBlock` up to its first `await`. -/
def startPut (s : ContentStore) (caller : Caller) (chunk : Chunk) : Task :=
  if chunk.bytes.length > s.chunkSize then finishPut caller (.refused (s.tooLarge chunk.bytes))
  else .checking caller chunk none

/-- The second loop of `storeContent`. -/
def writeNext (s : ContentStore) : List Chunk → Manifest → Task
  | [], manifest => .finished (.stored (.ok (some manifest)))
  | chunk :: todo, manifest => startPut s (.content todo manifest) chunk

/-- The first loop of `storeContent`, and the check behind it. -/
def scan (s : ContentStore) : List Chunk → List Chunk → Manifest → Nat → Task
  | [], chunks, manifest, need =>
    if s.bytesUsed + need > s.quotaBytes then
      .finished (.stored (.refused ("quota: content needs " ++ toString need ++
        "B but only " ++ toString s.available ++ "B free")))
    else writeNext s chunks manifest
  | chunk :: todo, chunks, manifest, need => .scanning chunk todo chunks manifest need none

/-- The loop of `release`, and the update behind it. -/
def releaseNext (s : ContentStore) : List Cid → Nat → ContentStore × Task
  | [], freed => ({ s with bytesUsed := s.bytesUsed - freed }, .finished (.released freed))
  | cid :: todo, freed => (s, .releasing cid todo freed none)

inductive Call where
  | putBlock (chunk : Chunk)
  | storeContent (bytes : Bytes)
  | release (cids : List Cid)

/-- A call up to its first `await`. -/
def begin (P : Primitives F) (s : ContentStore) : Call → ContentStore × Task
  | .putBlock chunk => (s, startPut s .direct chunk)
  | .storeContent bytes =>
    match chunkContent P bytes s.chunkSize with
    | none => (s, .finished .threw)
    | some (manifest, chunks) => (s, scan s chunks chunks manifest 0)
  | .release cids => releaseNext s cids 0

/-- The backend carries out what a call awaits. -/
def perform (m : Backend) : Task → Backend × Task
  | .scanning chunk todo chunks manifest need none =>
    (m, .scanning chunk todo chunks manifest need (some (m.has chunk.cid)))
  | .checking caller chunk none => (m, .checking caller chunk (some (m.has chunk.cid)))
  | .writing caller chunk base none =>
    let (m', added) := m.put chunk.cid chunk.bytes
    (m', .writing caller chunk base (some added))
  | .releasing cid todo freed none =>
    let (m', gone) := m.remove cid
    (m', .releasing cid todo freed (some gone))
  | task => (m, task)

/-- A call goes on from its `await` to the next one. -/
def resume (s : ContentStore) : Task → ContentStore × Task
  | .scanning chunk todo chunks manifest need (some held) =>
    (s, scan s todo chunks manifest (if held then need else need + chunk.bytes.length))
  | .checking caller chunk (some held) =>
    if held then (s, finishPut caller (.ok none))
    else if s.bytesUsed + chunk.bytes.length > s.quotaBytes then
      (s, finishPut caller (.refused (s.quotaExceeded chunk.bytes)))
    else (s, .writing caller chunk s.bytesUsed none)
  | .writing caller _ base (some added) =>
    ({ s with bytesUsed := base + added }, finishPut caller (.ok none))
  | .returning _ _ (.refused reason) => (s, .finished (.stored (.refused reason)))
  | .returning todo manifest (.ok _) => (s, writeNext s todo manifest)
  | .releasing _ todo freed (some gone) => releaseNext s todo (freed + gone)
  | task => (s, task)

/-! ## Runs -/

/-- A store and the calls made on it, in the order they were made. -/
structure Concurrent where
  store : ContentStore
  tasks : List Task

inductive Event where
  | call (c : Call)
  | perform (i : Nat)
  | resume (i : Nat)

def step (P : Primitives F) (w : Concurrent) : Event → Concurrent
  | .call c =>
    let (store, task) := begin P w.store c
    { store, tasks := w.tasks ++ [task] }
  | .perform i =>
    match w.tasks[i]? with
    | none => w
    | some task =>
      let (backend, task') := ContentStore.perform w.store.backend task
      { store := { w.store with backend }, tasks := w.tasks.set i task' }
  | .resume i =>
    match w.tasks[i]? with
    | none => w
    | some task =>
      let (store, task') := ContentStore.resume w.store task
      { store, tasks := w.tasks.set i task' }

/-- A store on an empty backend, before any call. -/
def Concurrent.new (quotaBytes chunkSize : Nat) : Concurrent where
  store := { quotaBytes, chunkSize, bytesUsed := 0, backend := JsMap.empty }
  tasks := []

/-- All calls have finished. -/
def Concurrent.Settled (w : Concurrent) : Prop := ∀ task ∈ w.tasks, ∃ o, task = .finished o

/-- The quota is kept, and the counter is right whenever no call is running. -/
structure Accounted (w : Concurrent) : Prop where
  quota : w.store.backend.bytesUsed ≤ w.store.quotaBytes
  used : w.Settled → w.store.bytesUsed = w.store.backend.bytesUsed

/-! ## The condition -/

/-- The bytes that a call may still add to the counter. -/
def Task.reserve : Task → Nat
  | .writing _ chunk _ _ => chunk.bytes.length
  | _ => 0

/-- The bytes of the writes under way. -/
def Concurrent.inFlight (w : Concurrent) : Int :=
  (w.tasks.map fun task => (task.reserve : Int)).sum

/-- The move does not go wrong because of another call: a counter that is written back was
not changed since it was read, and a block that passes the quota check fits beside the
writes under way. -/
def Undisturbed (w : Concurrent) : Event → Prop
  | .resume i =>
    match w.tasks[i]? with
    | some (.writing _ _ base (some _)) => base = w.store.bytesUsed
    | some (.checking _ chunk (some false)) =>
      w.store.bytesUsed + chunk.bytes.length ≤ w.store.quotaBytes →
        w.store.bytesUsed + w.inFlight + chunk.bytes.length ≤ w.store.quotaBytes
    | _ => True
  | _ => True

/-! ## The books -/

/-- What the backend holds beyond the counter on account of a call. -/
def Task.gain : Task → Int
  | .writing _ _ _ (some added) => added
  | .releasing _ _ freed answer => -(freed + answer.getD 0)
  | _ => 0

/-- A call that neither adds nor releases at present. -/
structure Task.Idle (task : Task) : Prop where
  gain : task.gain = 0
  reserve : task.reserve = 0

/-- The counter and what the calls will do to it make up what is held; the quota has room
for the counter and all that may be added; no call adds more than it announced. -/
structure Counted (w : Concurrent) : Prop where
  counter : w.store.bytesUsed + (w.tasks.map Task.gain).sum = w.store.backend.bytesUsed
  room : w.store.bytesUsed + w.inFlight ≤ w.store.quotaBytes
  bounded : ∀ task ∈ w.tasks, task.gain ≤ task.reserve

theorem Counted.accounted {w : Concurrent} (h : Counted w) : Accounted w where
  quota := by
    have hle : (w.tasks.map Task.gain).sum ≤ w.inFlight := List.sum_le_sum h.bounded
    have hcounter := h.counter
    have hroom := h.room
    omega
  used hsettled := by
    have hzero : ∀ x ∈ w.tasks.map Task.gain, x = 0 := by
      intro x hx
      obtain ⟨task, htask, rfl⟩ := List.mem_map.mp hx
      obtain ⟨o, rfl⟩ := hsettled task htask
      rfl
    have hcounter := h.counter
    rwa [List.sum_eq_zero hzero, Int.add_zero] at hcounter

theorem sum_map_set (f : Task → Int) {l : List Task} {i : Nat} {task : Task}
    (h : l[i]? = some task) (task' : Task) :
    ((l.set i task').map f).sum = (l.map f).sum - f task + f task' := by
  induction l generalizing i with
  | nil => simp at h
  | cons x l ih =>
    cases i with
    | zero =>
      have hx : x = task := by simpa using h
      rw [List.set_cons_zero, List.map_cons, List.map_cons, List.sum_cons, List.sum_cons, hx]
      omega
    | succ i =>
      have hrest := ih (by simpa using h)
      rw [List.set_cons_succ, List.map_cons, List.map_cons, List.sum_cons, List.sum_cons,
        hrest]
      omega

theorem Counted.replace {w : Concurrent} (h : Counted w) {i : Nat} {task task' : Task}
    {s : ContentStore} (htask : w.tasks[i]? = some task)
    (hquota : s.quotaBytes = w.store.quotaBytes)
    (hcounter : s.bytesUsed + task'.gain + w.store.backend.bytesUsed =
      w.store.bytesUsed + task.gain + s.backend.bytesUsed)
    (hroom : s.bytesUsed + (w.inFlight - task.reserve) + task'.reserve ≤ w.store.quotaBytes)
    (hbounded : task'.gain ≤ task'.reserve) :
    Counted { store := s, tasks := w.tasks.set i task' } where
  counter := by
    have hold := h.counter
    show s.bytesUsed + ((w.tasks.set i task').map Task.gain).sum = s.backend.bytesUsed
    rw [sum_map_set Task.gain htask]
    omega
  room := by
    have hsum := sum_map_set (fun task => (task.reserve : Int)) htask task'
    show s.bytesUsed + ((w.tasks.set i task').map fun task => (task.reserve : Int)).sum ≤
      s.quotaBytes
    rw [hsum, hquota]
    simp only [Concurrent.inFlight] at hroom
    omega
  bounded other hmem := by
    rcases List.mem_or_eq_of_mem_set hmem with hold | rfl
    · exact h.bounded other hold
    · exact hbounded

/-! ## What the code between two awaits does -/

theorem idle_finishPut (caller : Caller) (result : StoreResult) :
    (finishPut caller result).Idle := by
  cases caller <;> exact ⟨rfl, rfl⟩

theorem idle_startPut (s : ContentStore) (caller : Caller) (chunk : Chunk) :
    (startPut s caller chunk).Idle := by
  unfold startPut
  split
  · exact idle_finishPut _ _
  · exact ⟨rfl, rfl⟩

theorem idle_writeNext (s : ContentStore) (todo : List Chunk) (manifest : Manifest) :
    (writeNext s todo manifest).Idle := by
  cases todo with
  | nil => exact ⟨rfl, rfl⟩
  | cons chunk todo => exact idle_startPut _ _ _

theorem idle_scan (s : ContentStore) (todo chunks : List Chunk) (manifest : Manifest)
    (need : Nat) : (scan s todo chunks manifest need).Idle := by
  cases todo with
  | nil =>
    rw [scan]
    split
    · exact ⟨rfl, rfl⟩
    · exact idle_writeNext _ _ _
  | cons chunk todo => exact ⟨rfl, rfl⟩

theorem releaseNext_books (s : ContentStore) (todo : List Cid) (freed : Nat) :
    (releaseNext s todo freed).1.quotaBytes = s.quotaBytes ∧
      (releaseNext s todo freed).1.backend = s.backend ∧
      (releaseNext s todo freed).1.bytesUsed ≤ s.bytesUsed ∧
      (releaseNext s todo freed).1.bytesUsed + (releaseNext s todo freed).2.gain =
        s.bytesUsed - freed ∧
      (releaseNext s todo freed).2.gain ≤ 0 ∧ (releaseNext s todo freed).2.reserve = 0 := by
  cases todo with
  | nil =>
    refine ⟨rfl, rfl, ?_, ?_, ?_, rfl⟩ <;> simp [releaseNext, Task.gain]
  | cons cid todo =>
    refine ⟨rfl, rfl, Int.le_refl _, ?_, ?_, rfl⟩
    · simp [releaseNext, Task.gain]
      omega
    · simp [releaseNext, Task.gain]

theorem bytesUsed_put (m : Backend) (cid : Cid) (bytes : Bytes) :
    (m.put cid bytes).1.bytesUsed = m.bytesUsed + (m.put cid bytes).2 ∧
      (m.put cid bytes).2 ≤ bytes.length := by
  unfold Backend.put
  split
  · exact ⟨rfl, Nat.zero_le _⟩
  · rename_i hfresh
    have hfresh : m.has cid = false := by simpa using hfresh
    exact ⟨JsMap.total_set_of_fresh List.length ((JsMap.has_eq_false_iff m cid).mp hfresh) bytes,
      Nat.le_refl _⟩

theorem bytesUsed_remove (m : Backend) (cid : Cid) :
    (m.remove cid).1.bytesUsed + (m.remove cid).2 = m.bytesUsed := by
  unfold Backend.remove
  split
  · rfl
  · rename_i held hget
    have htotal := JsMap.total_delete List.length m cid
    rwa [hget, Option.elim_some] at htotal

/-! ## Every run -/

section Moves

variable {w : Concurrent} {i : Nat} {task : Task}

theorem step_perform (P : Primitives F) (h : w.tasks[i]? = some task) :
    step P w (.perform i) =
      { store := { w.store with backend := (perform w.store.backend task).1 },
        tasks := w.tasks.set i (perform w.store.backend task).2 } := by
  simp only [step, h]

theorem step_resume (P : Primitives F) (h : w.tasks[i]? = some task) :
    step P w (.resume i) =
      { store := (resume w.store task).1, tasks := w.tasks.set i (resume w.store task).2 } := by
  simp only [step, h]

theorem step_of_none (P : Primitives F) (h : w.tasks[i]? = none) :
    step P w (.perform i) = w ∧ step P w (.resume i) = w := by
  simp only [step, h, and_self]

end Moves

variable {w : Concurrent}

theorem Counted.add (h : Counted w) {s : ContentStore} {task : Task}
    (hquota : s.quotaBytes = w.store.quotaBytes) (hbackend : s.backend = w.store.backend)
    (hcounter : s.bytesUsed + task.gain = w.store.bytesUsed)
    (hused : s.bytesUsed ≤ w.store.bytesUsed) (hgain : task.gain ≤ 0)
    (hreserve : task.reserve = 0) : Counted { store := s, tasks := w.tasks ++ [task] } where
  counter := by
    have hold := h.counter
    show s.bytesUsed + ((w.tasks ++ [task]).map Task.gain).sum = s.backend.bytesUsed
    rw [List.map_append, List.sum_append, List.map_singleton, List.sum_singleton, hbackend]
    omega
  room := by
    have hold := h.room
    show s.bytesUsed + ((w.tasks ++ [task]).map fun task => (task.reserve : Int)).sum ≤
      s.quotaBytes
    rw [List.map_append, List.sum_append, List.map_singleton, List.sum_singleton, hreserve,
      hquota]
    simp only [Concurrent.inFlight] at hold
    omega
  bounded other hmem := by
    rcases List.mem_append.mp hmem with hold | hnew
    · exact h.bounded other hold
    · rw [List.mem_singleton.mp hnew, hreserve]
      exact hgain

theorem Counted.call (P : Primitives F) (h : Counted w) (c : Call) :
    Counted (step P w (.call c)) := by
  have hidle : ∀ task : Task, task.Idle →
      Counted { store := w.store, tasks := w.tasks ++ [task] } := by
    intro task htask
    exact h.add rfl rfl (by rw [htask.gain, Int.add_zero]) (Int.le_refl _)
      (by rw [htask.gain]) htask.reserve
  cases c with
  | putBlock chunk => exact hidle _ (idle_startPut _ _ _)
  | storeContent bytes =>
    simp only [step, begin]
    split
    · exact hidle _ ⟨rfl, rfl⟩
    · exact hidle _ (idle_scan _ _ _ _ _)
  | release cids =>
    obtain ⟨hquota, hbackend, hused, hcounter, hgain, hreserve⟩ :=
      releaseNext_books w.store cids 0
    refine h.add hquota hbackend (hcounter.trans ?_) hused hgain hreserve
    rw [Nat.cast_zero, Int.sub_zero]

theorem Counted.idle (h : Counted w) {i : Nat} {task task' : Task}
    (htask : w.tasks[i]? = some task) (hbefore : task.Idle) (hafter : task'.Idle) :
    Counted { store := w.store, tasks := w.tasks.set i task' } := by
  have hroom := h.room
  refine h.replace htask rfl ?_ ?_ ?_
  · rw [hbefore.gain, hafter.gain]
  · rw [hbefore.reserve, hafter.reserve]
    omega
  · rw [hafter.gain, hafter.reserve]
    exact Int.le_refl 0

theorem Counted.stay (h : Counted w) {i : Nat} {task : Task} (htask : w.tasks[i]? = some task) :
    Counted { store := w.store, tasks := w.tasks.set i task } := by
  have hsame : w.tasks.set i task = w.tasks := by
    obtain ⟨hi, rfl⟩ := List.getElem?_eq_some_iff.mp htask
    exact List.set_getElem_self hi
  rwa [hsame]

theorem Counted.perform (P : Primitives F) (h : Counted w) (i : Nat) :
    Counted (step P w (.perform i)) := by
  cases htask : w.tasks[i]? with
  | none => rwa [(step_of_none P htask).1]
  | some task =>
    rw [step_perform P htask]
    have hmem : task ∈ w.tasks := List.mem_of_getElem? htask
    have hroom := h.room
    cases task with
    | scanning chunk todo chunks manifest need answer =>
      cases answer with
      | none => exact h.idle htask ⟨rfl, rfl⟩ ⟨rfl, rfl⟩
      | some held => exact h.stay htask
    | checking caller chunk answer =>
      cases answer with
      | none => exact h.idle htask ⟨rfl, rfl⟩ ⟨rfl, rfl⟩
      | some held => exact h.stay htask
    | writing caller chunk base answer =>
      cases answer with
      | none =>
        obtain ⟨hheld, hadded⟩ := bytesUsed_put w.store.backend chunk.cid chunk.bytes
        refine h.replace htask rfl ?_ ?_ ?_
        · simp only [ContentStore.perform, Task.gain, hheld]
          omega
        · simp only [ContentStore.perform, Task.reserve]
          omega
        · simp only [ContentStore.perform, Task.gain, Task.reserve]
          omega
      | some added => exact h.stay htask
    | returning todo manifest result => exact h.stay htask
    | releasing cid todo freed answer =>
      cases answer with
      | none =>
        have hheld := bytesUsed_remove w.store.backend cid
        refine h.replace htask rfl ?_ ?_ ?_
        · simp only [ContentStore.perform, Task.gain, Option.getD_none, Option.getD_some]
          omega
        · simp only [ContentStore.perform, Task.reserve]
          omega
        · simp only [ContentStore.perform, Task.gain, Task.reserve]
          omega
      | some gone => exact h.stay htask
    | finished outcome => exact h.stay htask

theorem Counted.resume (P : Primitives F) (h : Counted w) (i : Nat)
    (hcond : Undisturbed w (.resume i)) : Counted (step P w (.resume i)) := by
  unfold Undisturbed at hcond
  cases htask : w.tasks[i]? with
  | none => rwa [(step_of_none P htask).2]
  | some task =>
    rw [step_resume P htask]
    have hmem : task ∈ w.tasks := List.mem_of_getElem? htask
    have hroom := h.room
    simp only [htask] at hcond
    cases task with
    | scanning chunk todo chunks manifest need answer =>
      cases answer with
      | none => exact h.stay htask
      | some held => exact h.idle htask ⟨rfl, rfl⟩ (idle_scan _ _ _ _ _)
    | checking caller chunk answer =>
      cases answer with
      | none => exact h.stay htask
      | some held =>
        cases held with
        | true => exact h.idle htask ⟨rfl, rfl⟩ (idle_finishPut _ _)
        | false =>
          simp only [ContentStore.resume, Bool.false_eq_true, if_false]
          split
          · exact h.idle htask ⟨rfl, rfl⟩ (idle_finishPut _ _)
          · rename_i hfits
            have hbeside := hcond (by omega)
            refine h.replace htask rfl rfl ?_ ?_
            · simp only [Task.reserve]
              omega
            · simp only [Task.gain, Task.reserve]
              omega
    | writing caller chunk base answer =>
      cases answer with
      | none => exact h.stay htask
      | some added =>
        have hadded : (added : Int) ≤ chunk.bytes.length := h.bounded _ hmem
        have hidle := idle_finishPut caller (.ok none)
        simp only at hcond
        subst hcond
        have hreserve : (Task.writing caller chunk w.store.bytesUsed (some added)).reserve =
            chunk.bytes.length := rfl
        have hgain : (Task.writing caller chunk w.store.bytesUsed (some added)).gain =
            added := rfl
        refine h.replace htask rfl ?_ ?_ ?_
        · simp only [ContentStore.resume, hidle.gain, hgain]
          omega
        · simp only [ContentStore.resume, hidle.reserve, hreserve]
          omega
        · simp only [ContentStore.resume, hidle.gain, hidle.reserve]
          omega
    | returning todo manifest result =>
      cases result with
      | ok m => exact h.idle htask ⟨rfl, rfl⟩ (idle_writeNext _ _ _)
      | refused reason => exact h.idle htask ⟨rfl, rfl⟩ ⟨rfl, rfl⟩
    | releasing cid todo freed answer =>
      cases answer with
      | none => exact h.stay htask
      | some gone =>
        obtain ⟨hquota, hbackend, hused, hcounter, hgain, hreserve⟩ :=
          releaseNext_books w.store todo (freed + gone)
        have hbefore : (Task.releasing cid todo freed (some gone)).gain =
            -((freed : Int) + gone) := rfl
        have hnone : (Task.releasing cid todo freed (some gone)).reserve = 0 := rfl
        refine h.replace htask hquota ?_ ?_ ?_
        · simp only [ContentStore.resume, hbackend, hcounter, hbefore]
          omega
        · simp only [ContentStore.resume, hreserve, hnone]
          omega
        · simp only [ContentStore.resume, hreserve]
          omega
    | finished outcome => exact h.stay htask

/-- In every run whose moves are undisturbed, however its calls overlap, the backend never
holds more than the quota, and when all calls have finished the counter is the total size of
what it holds. -/
theorem always_accounted (P : Primitives F) (quotaBytes chunkSize : Nat) (events : List Event)
    (hevents : Run.StepsMeet (step P) Undisturbed (Concurrent.new quotaBytes chunkSize) events) :
    Run.Always (step P) Accounted (Concurrent.new quotaBytes chunkSize) events := by
  refine Run.always_of_invariant (I := Counted) (fun w e h hcond => ?_)
    (fun w h => h.accounted) ?_ hevents
  · cases e with
    | call c => exact h.call P c
    | perform i => exact h.perform P i
    | resume i => exact h.resume P i hcond
  · exact {
      counter := rfl
      room := Int.le_trans (Int.le_refl 0) (Int.natCast_nonneg quotaBytes)
      bounded := fun task htask => by cases htask }

/-- Two writes that overlap, each writing the counter back before the other reads it. -/
theorem always_accounted_turns :
    Run.Always (step Sample.primitives) Accounted (Concurrent.new 2 4)
      [.call (.putBlock ⟨"a", [1]⟩), .call (.putBlock ⟨"b", [2]⟩), .perform 0, .perform 1,
        .resume 0, .perform 0, .resume 0, .resume 1, .perform 1, .resume 1] :=
  always_accounted Sample.primitives 2 4 _
    ⟨trivial, trivial, trivial, trivial, fun _ => by decide, trivial, rfl,
      fun _ => by decide, trivial, rfl, trivial⟩

/-- Two writes of one byte each, on a store with room for one: both pass the quota check
before either is counted, and both add to the counter as it was before. -/
theorem not_accounted_overlap :
    let w := Run.final (step Sample.primitives) (Concurrent.new 1 4)
      [.call (.putBlock ⟨"a", [1]⟩), .perform 0, .call (.putBlock ⟨"b", [2]⟩), .perform 1,
        .resume 0, .perform 0, .resume 1, .perform 1, .resume 0, .resume 1]
    w.Settled ∧ w.store.bytesUsed = 1 ∧ w.store.backend.bytesUsed = 2 ∧
      w.store.quotaBytes = 1 := by
  intro w
  have htasks : w.tasks = [.finished (.stored (.ok none)), .finished (.stored (.ok none))] := rfl
  refine ⟨?_, rfl, rfl, rfl⟩
  intro task htask
  rw [htasks] at htask
  simp only [List.mem_cons, List.not_mem_nil, or_false, or_self] at htask
  exact ⟨_, htask⟩

end NeuronWeb.ContentStore
