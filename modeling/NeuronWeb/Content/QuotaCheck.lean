/-
  Content/QuotaCheck: the pre-check of a content store against what it writes
  (`engine/content/content-store.ts`).

  Calls are made one after another here.  The check counts a new chunk as often as the content
  has it, and the writes that follow count it once: the check is exact unless the repeated
  chunks are what does not fit.
-/
import NeuronWeb.Content.StoreRaces

set_option autoImplicit false

namespace NeuronWeb.ContentStore

variable {F : Type}

/-! ## Calls one after another -/

/-- `need`: the bytes of the chunks that are not held, each as often as it occurs. -/
def neededBytes (m : Backend) (chunks : List Chunk) : Nat :=
  ((chunks.filter fun c => !m.has c.cid).map fun c => c.bytes.length).sum

/-- The loop of writes: the first refusal ends it. -/
def writeChunks (manifest : Manifest) : ContentStore → List Chunk → ContentStore × StoreResult
  | s, [] => (s, .ok (some manifest))
  | s, c :: rest =>
    match (s.putBlock c.cid c.bytes).2 with
    | .refused reason => ((s.putBlock c.cid c.bytes).1, .refused reason)
    | .ok _ => writeChunks manifest (s.putBlock c.cid c.bytes).1 rest

/-- The refusal of content that does not fit. -/
def contentRefused (s : ContentStore) (need : Nat) : String :=
  "quota: content needs " ++ toString need ++ "B but only " ++ toString s.available ++ "B free"

/-- `storeContent(bytes)`; no result when it throws. -/
def storeContent (P : Primitives F) (s : ContentStore) (bytes : Bytes) :
    ContentStore × Option StoreResult :=
  match chunkContent P bytes s.chunkSize with
  | none => (s, none)
  | some (manifest, chunks) =>
    let need := neededBytes s.backend chunks
    if s.bytesUsed + need > s.quotaBytes then (s, some (.refused (s.contentRefused need)))
    else
      let (s', result) := writeChunks manifest s chunks
      (s', some result)

/-- `release(cids)`: the bytes freed. -/
def release (s : ContentStore) (cids : List Cid) : ContentStore × Nat :=
  let (backend, freed) := cids.foldl (fun (gone : Backend × Nat) cid =>
    ((gone.1.remove cid).1, gone.2 + (gone.1.remove cid).2)) (s.backend, 0)
  ({ s with backend, bytesUsed := s.bytesUsed - freed }, freed)

/-- `open()`: adopt a backend's existing contents. -/
def adopt (s : ContentStore) : ContentStore := { s with bytesUsed := s.backend.bytesUsed }

/-- A call made when no other is running. -/
inductive SerialCall where
  | adopt
  | call (c : Call)

def serve (P : Primitives F) (s : ContentStore) : SerialCall → ContentStore
  | .adopt => s.adopt
  | .call (.putBlock chunk) => (s.putBlock chunk.cid chunk.bytes).1
  | .call (.storeContent bytes) => (s.storeContent P bytes).1
  | .call (.release cids) => (s.release cids).1

/-! ## Distinct chunks -/

/-- The first chunk of each address. -/
def distinct : List Chunk → List Chunk
  | [] => []
  | c :: rest => c :: (distinct rest).filter fun d => d.cid ≠ c.cid

/-- The bytes of the distinct chunks that are not held. -/
def newBytes (m : Backend) (chunks : List Chunk) : Nat := neededBytes m (distinct chunks)

section Distinct

variable {m : Backend} {c : Chunk} {rest : List Chunk}

theorem neededBytes_cons_of_held (h : m.has c.cid = true) :
    neededBytes m (c :: rest) = neededBytes m rest := by
  unfold neededBytes
  rw [List.filter_cons_of_neg (by simp [h])]

theorem neededBytes_cons_of_new (h : m.has c.cid = false) :
    neededBytes m (c :: rest) = c.bytes.length + neededBytes m rest := by
  unfold neededBytes
  rw [List.filter_cons_of_pos (by simp [h]), List.map_cons, List.sum_cons]

theorem neededBytes_filter_le (p : Chunk → Bool) (m : Backend) (chunks : List Chunk) :
    neededBytes m (chunks.filter p) ≤ neededBytes m chunks := by
  unfold neededBytes
  have hsub : ((chunks.filter p).filter fun c => !m.has c.cid).Sublist
      (chunks.filter fun c => !m.has c.cid) := List.filter_sublist.filter _
  exact (hsub.map _).sum_le_sum fun _ _ => Nat.zero_le _

theorem newBytes_le (m : Backend) : ∀ chunks, newBytes m chunks ≤ neededBytes m chunks
  | [] => le_rfl
  | c :: rest => by
    have hrest := (neededBytes_filter_le (fun d => d.cid ≠ c.cid) m (distinct rest)).trans
      (newBytes_le m rest)
    unfold newBytes
    cases hc : m.has c.cid with
    | true => rwa [distinct, neededBytes_cons_of_held hc, neededBytes_cons_of_held hc]
    | false =>
      rw [distinct, neededBytes_cons_of_new hc, neededBytes_cons_of_new hc]
      exact Nat.add_le_add_left hrest _

theorem newBytes_cons_of_held (h : m.has c.cid = true) :
    newBytes m (c :: rest) = newBytes m rest := by
  unfold newBytes
  rw [distinct, neededBytes_cons_of_held h]
  unfold neededBytes
  rw [List.filter_filter]
  congr 2
  refine List.filter_congr fun d _ => ?_
  by_cases hd : d.cid = c.cid
  · simp [hd, h]
  · simp [hd]

theorem newBytes_cons_of_new (h : m.has c.cid = false) :
    newBytes m (c :: rest) = c.bytes.length + newBytes (m.set c.cid c.bytes) rest := by
  unfold newBytes
  rw [distinct, neededBytes_cons_of_new h]
  unfold neededBytes
  rw [List.filter_filter]
  congr 3
  refine List.filter_congr fun d _ => ?_
  rw [JsMap.has_set]
  by_cases hd : c.cid = d.cid
  · simp [hd]
  · simp [hd, Ne.symm hd]

theorem neededBytes_set_le (m : Backend) (cid : Cid) (bytes : Bytes) (chunks : List Chunk) :
    neededBytes (m.set cid bytes) chunks ≤ neededBytes m chunks := by
  unfold neededBytes
  have hfilter : (chunks.filter fun c => !(m.set cid bytes).has c.cid) =
      (chunks.filter fun c => !m.has c.cid).filter fun c => decide (cid ≠ c.cid) := by
    rw [List.filter_filter]
    refine List.filter_congr fun d _ => ?_
    rw [JsMap.has_set]
    by_cases hd : cid = d.cid <;> simp [hd]
  rw [hfilter]
  exact (List.filter_sublist.map _).sum_le_sum fun _ _ => Nat.zero_le _

end Distinct

/-! ## The writes -/

section Writes

variable {P : Primitives F} {s : ContentStore} {c : Chunk}

theorem putBlock_of_held (hsize : c.bytes.length ≤ s.chunkSize)
    (h : s.backend.has c.cid = true) : s.putBlock c.cid c.bytes = (s, .ok none) := by
  unfold putBlock
  rw [if_neg (not_lt.mpr hsize), if_pos h]

theorem putBlock_of_new (hsize : c.bytes.length ≤ s.chunkSize)
    (h : s.backend.has c.cid = false) (hroom : s.bytesUsed + c.bytes.length ≤ s.quotaBytes) :
    s.putBlock c.cid c.bytes =
      ({ s with
          backend := s.backend.set c.cid c.bytes
          bytesUsed := s.bytesUsed + c.bytes.length }, .ok none) := by
  unfold putBlock
  rw [if_neg (not_lt.mpr hsize), if_neg (by simp [h]), if_neg (not_lt.mpr hroom)]
  simp only [Backend.put, h, Bool.false_eq_true, if_false]

/-- When the counted bytes fit, every write succeeds, and what is added are the distinct new
chunks. -/
theorem writeChunks_of_fits (manifest : Manifest) : ∀ (chunks : List Chunk) (s : ContentStore),
    (∀ c ∈ chunks, c.bytes.length ≤ s.chunkSize) →
    s.bytesUsed + neededBytes s.backend chunks ≤ s.quotaBytes →
    (writeChunks manifest s chunks).2 = .ok (some manifest) ∧
      (writeChunks manifest s chunks).1.bytesUsed = s.bytesUsed + newBytes s.backend chunks
  | [], s, _, _ => ⟨rfl, (Int.add_zero _).symm⟩
  | c :: rest, s, hsizes, hfits => by
    have hsize := hsizes c List.mem_cons_self
    have hsizes' : ∀ d ∈ rest, d.bytes.length ≤ s.chunkSize :=
      fun d hd => hsizes d (List.mem_cons_of_mem c hd)
    cases hc : s.backend.has c.cid with
    | true =>
      rw [neededBytes_cons_of_held hc] at hfits
      rw [writeChunks, putBlock_of_held hsize hc, newBytes_cons_of_held hc]
      exact writeChunks_of_fits manifest rest s hsizes' hfits
    | false =>
      rw [neededBytes_cons_of_new hc] at hfits
      have hmore := neededBytes_set_le s.backend c.cid c.bytes rest
      rw [writeChunks, putBlock_of_new hsize hc (by omega), newBytes_cons_of_new hc]
      obtain ⟨hok, hused⟩ := writeChunks_of_fits manifest rest
        { s with
            backend := s.backend.set c.cid c.bytes
            bytesUsed := s.bytesUsed + c.bytes.length } hsizes' (by simp only; omega)
      refine ⟨hok, hused.trans ?_⟩
      simp only
      omega

end Writes

/-! ## The check -/

/-- The answer of `storeContent` is about the distinct new chunks, and a refusal changes
nothing. -/
def ExactCheck (P : Primitives F) (s : ContentStore) (bytes : Bytes) : Prop :=
  ∀ manifest chunks, chunkContent P bytes s.chunkSize = some (manifest, chunks) →
    ((∃ m, (s.storeContent P bytes).2 = some (.ok m)) ↔
      newBytes s.backend chunks ≤ s.available) ∧
    ∀ reason, (s.storeContent P bytes).2 = some (.refused reason) →
      (s.storeContent P bytes).1.backend = s.backend ∧
        (s.storeContent P bytes).1.bytesUsed = s.bytesUsed

/-- If the distinct new chunks fit, they fit as often as the content has them. -/
def RepeatsFit (P : Primitives F) (s : ContentStore) (bytes : Bytes) : Prop :=
  ∀ manifest chunks, chunkContent P bytes s.chunkSize = some (manifest, chunks) →
    newBytes s.backend chunks ≤ s.available → neededBytes s.backend chunks ≤ s.available

section Check

variable {P : Primitives F} {s : ContentStore} {bytes : Bytes} {manifest : Manifest}
  {chunks : List Chunk}

theorem storeContent_of_too_many (h : chunkContent P bytes s.chunkSize = some (manifest, chunks))
    (hneed : ¬(neededBytes s.backend chunks : Int) ≤ s.available) :
    s.storeContent P bytes =
      (s, some (.refused (s.contentRefused (neededBytes s.backend chunks)))) := by
  unfold available at hneed
  have hover : s.bytesUsed + neededBytes s.backend chunks > s.quotaBytes := by omega
  simp only [storeContent, h, if_pos hover]

theorem storeContent_of_fits (h : chunkContent P bytes s.chunkSize = some (manifest, chunks))
    (hneed : (neededBytes s.backend chunks : Int) ≤ s.available) :
    (s.storeContent P bytes).2 = some (.ok (some manifest)) ∧
      (s.storeContent P bytes).1.bytesUsed = s.bytesUsed + newBytes s.backend chunks := by
  unfold available at hneed
  have hover : ¬s.bytesUsed + neededBytes s.backend chunks > s.quotaBytes := by omega
  have hsizes : ∀ c ∈ chunks, c.bytes.length ≤ s.chunkSize := by
    rw [chunks_of_chunkContent h]
    exact fun c hc => length_le_of_mem_chunksOf hc
  obtain ⟨hok, hused⟩ := writeChunks_of_fits manifest chunks s hsizes (by omega)
  simp only [storeContent, h, if_neg hover]
  exact ⟨congrArg some hok, hused⟩

theorem exactCheck_iff (P : Primitives F) (s : ContentStore) (bytes : Bytes) :
    ExactCheck P s bytes ↔ RepeatsFit P s bytes := by
  constructor
  · intro hexact manifest chunks h hnew
    by_contra hneed
    obtain ⟨m, hok⟩ := (hexact manifest chunks h).1.mpr hnew
    rw [storeContent_of_too_many h hneed] at hok
    cases hok
  · intro hrepeats manifest chunks h
    by_cases hneed : (neededBytes s.backend chunks : Int) ≤ s.available
    · have hok := (storeContent_of_fits h hneed).1
      refine ⟨iff_of_true ⟨_, hok⟩ ?_, fun reason hrefused => ?_⟩
      · have hle := newBytes_le s.backend chunks
        omega
      · rw [hok] at hrefused
        cases hrefused
    · rw [storeContent_of_too_many h hneed]
      refine ⟨iff_of_false ?_ fun hnew => hneed (hrepeats manifest chunks h hnew),
        fun _ _ => ⟨rfl, rfl⟩⟩
      rintro ⟨m, hok⟩
      cases hok

/-- In a run of calls one after another, every answer of `storeContent` is exact exactly when
no content fails the check for its repeated chunks. -/
theorem quota_check_exact_iff (P : Primitives F) (s : ContentStore) (calls : List SerialCall) :
    Run.EveryStep (serve P)
        (fun s c _ => ∀ bytes, c = .call (.storeContent bytes) → ExactCheck P s bytes) s calls ↔
      Run.StepsMeet (serve P)
        (fun s c => ∀ bytes, c = .call (.storeContent bytes) → RepeatsFit P s bytes) s calls :=
  Run.everyStep_iff_stepsMeet (I := fun _ => True) (fun _ _ _ => trivial)
    (fun s _ _ => forall₂_congr fun bytes _ => exactCheck_iff P s bytes) trivial

end Check

/-! ## One call alone -/

/-- The moves of the only call there is: the backend answers, and the call goes on. -/
def Alone (P : Primitives F) : Concurrent → Concurrent → Prop :=
  Relation.ReflTransGen fun w w' => w' = step P (step P w (.perform 0)) (.resume 0)

section Alone

variable {P : Primitives F} {s s' : ContentStore} {w : Concurrent} {task : Task}

theorem Alone.turn (P : Primitives F) (s : ContentStore) (task : Task)
    (h : Alone P ⟨(resume { s with backend := (perform s.backend task).1 }
      (perform s.backend task).2).1, [(resume { s with backend := (perform s.backend task).1 }
        (perform s.backend task).2).2]⟩ w) : Alone P ⟨s, [task]⟩ w :=
  Relation.ReflTransGen.head rfl h

theorem alone_scan (chunks : List Chunk) (manifest : Manifest) :
    ∀ (todo : List Chunk) (need : Nat),
    Alone P ⟨s, [scan s [] chunks manifest (need + neededBytes s.backend todo)]⟩ w →
    Alone P ⟨s, [scan s todo chunks manifest need]⟩ w
  | [], need, h => h
  | c :: rest, need, h => by
    refine .turn P s _ (alone_scan chunks manifest rest _ ?_)
    cases hc : s.backend.has c.cid with
    | true =>
      rw [neededBytes_cons_of_held hc] at h
      simpa only [hc, if_true] using h
    | false =>
      rw [neededBytes_cons_of_new hc, ← Nat.add_assoc] at h
      simpa only [hc, Bool.false_eq_true, if_false] using h

theorem alone_writeNext (manifest : Manifest) : ∀ (chunks : List Chunk) (s : ContentStore),
    Alone P ⟨s, [writeNext s chunks manifest]⟩
      ⟨(writeChunks manifest s chunks).1, [.finished (.stored (writeChunks manifest s chunks).2)]⟩
  | [], s => .refl
  | c :: rest, s => by
    have hrest := alone_writeNext manifest rest (s.putBlock c.cid c.bytes).1
    rw [writeNext, startPut, writeChunks]
    by_cases hlarge : c.bytes.length > s.chunkSize
    · rw [if_pos hlarge]
      simp only [putBlock, if_pos hlarge, finishPut]
      exact .turn P s _ .refl
    · rw [if_neg hlarge]
      cases hc : s.backend.has c.cid with
      | true =>
        rw [putBlock_of_held (not_lt.mp hlarge) hc] at hrest ⊢
        refine .turn P s _ ?_
        simp only [perform, resume, hc, if_true, finishPut]
        exact .turn P s _ hrest
      | false =>
        by_cases hroom : s.bytesUsed + c.bytes.length > s.quotaBytes
        · have hput : s.putBlock c.cid c.bytes = (s, .refused (s.quotaExceeded c.bytes)) := by
            unfold putBlock
            rw [if_neg hlarge, if_neg (by simp [hc]), if_pos hroom]
          rw [hput]
          refine .turn P s _ ?_
          simp only [perform, resume, hc, Bool.false_eq_true, if_false, if_pos hroom, finishPut]
          exact .turn P s _ .refl
        · rw [putBlock_of_new (not_lt.mp hlarge) hc (not_lt.mp hroom)] at hrest ⊢
          refine .turn P s _ ?_
          simp only [perform, resume, hc, Bool.false_eq_true, if_false, if_neg hroom]
          refine .turn P s _ ?_
          simp only [perform, resume, Backend.put, hc, Bool.false_eq_true, if_false, finishPut]
          exact .turn P _ _ hrest

theorem storeContent_alone (P : Primitives F) (s : ContentStore) (bytes : Bytes)
    (hsize : s.chunkSize ≠ 0) :
    ∃ result, (s.storeContent P bytes).2 = some result ∧
      Alone P (step P ⟨s, []⟩ (.call (.storeContent bytes)))
        ⟨(s.storeContent P bytes).1, [.finished (.stored result)]⟩ := by
  have hchunks : ∃ found, chunkContent P bytes s.chunkSize = some found := by
    unfold chunkContent
    rw [if_neg hsize]
    exact ⟨_, rfl⟩
  obtain ⟨⟨manifest, chunks⟩, h⟩ := hchunks
  have hstart : step P ⟨s, []⟩ (.call (.storeContent bytes)) =
      ⟨s, [scan s chunks chunks manifest 0]⟩ := by
    simp only [step, begin, h, List.nil_append]
  rw [hstart]
  by_cases hneed : (neededBytes s.backend chunks : Int) ≤ s.available
  · have hover : ¬s.bytesUsed + neededBytes s.backend chunks > s.quotaBytes := by
      unfold available at hneed
      omega
    have hresult : s.storeContent P bytes =
        ((writeChunks manifest s chunks).1, some (writeChunks manifest s chunks).2) := by
      simp only [storeContent, h, if_neg hover]
    rw [hresult]
    refine ⟨_, rfl, alone_scan chunks manifest chunks 0 ?_⟩
    rw [Nat.zero_add, scan, if_neg hover]
    exact alone_writeNext manifest chunks s
  · rw [storeContent_of_too_many h hneed]
    have hover : s.bytesUsed + neededBytes s.backend chunks > s.quotaBytes := by
      unfold available at hneed
      omega
    refine ⟨_, rfl, alone_scan chunks manifest chunks 0 ?_⟩
    rw [Nat.zero_add, scan, if_pos hover]
    exact .refl

/-- Nine bytes in three chunks. -/
theorem storeContent_alone_three : ∃ result,
    (storeContent Sample.primitives ⟨20, 4, 0, .empty⟩ [1, 2, 3, 4, 5, 6, 7, 8, 9]).2 =
        some result ∧
      Alone Sample.primitives
        (step Sample.primitives ⟨⟨20, 4, 0, .empty⟩, []⟩
          (.call (.storeContent [1, 2, 3, 4, 5, 6, 7, 8, 9])))
        ⟨(storeContent Sample.primitives ⟨20, 4, 0, .empty⟩ [1, 2, 3, 4, 5, 6, 7, 8, 9]).1,
          [.finished (.stored result)]⟩ :=
  storeContent_alone Sample.primitives ⟨20, 4, 0, .empty⟩ [1, 2, 3, 4, 5, 6, 7, 8, 9] (by decide)

end Alone

/-- Two equal chunks of four bytes, on a store with room for one: they are refused, although
the chunk that they are fits. -/
theorem repeated_chunk_refused :
    ∃ manifest chunks,
      chunkContent Sample.primitives [7, 7, 7, 7, 7, 7, 7, 7] 4 = some (manifest, chunks) ∧
      newBytes .empty chunks = 4 ∧
      (storeContent Sample.primitives ⟨6, 4, 0, .empty⟩ [7, 7, 7, 7, 7, 7, 7, 7]).2 =
        some (.refused "quota: content needs 8B but only 6B free") := by
  refine ⟨_, _, rfl, ?_, ?_⟩
  · decide +kernel
  · decide +kernel

end NeuronWeb.ContentStore
