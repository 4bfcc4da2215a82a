/-
  Content/ManifestCodec: from bytes to a manifest and back, and a manifest on the wire
  (`reassemble`, `verifyManifest`, `encodeManifest` and `decodeManifest` in
  `engine/content/chunking.ts`).

  The wire form drops the sizes of the chunks: they follow from the size of the content and of a
  chunk (`sizeAt`), and so does how many there are (`Covers`).

  The decoder does not look at the three reserved bytes, so an accepted manifest has as many
  encodings as these have values (`decodeManifest_strict_iff`).
-/
import NeuronWeb.Content.ContentStore
import NeuronWeb.Foundation.Rounding
import NeuronWeb.Sample
import Mathlib.Data.List.GetD
import Mathlib.Tactic.Qify

set_option autoImplicit false

namespace NeuronWeb

variable {F : Type}

/-! ## Reassembly -/

/-- `verifyCid(cid, bytes)`. -/
def verifyCid (P : Primitives F) (cid : Cid) (bytes : Bytes) : Bool := cidOf P bytes == cid

/-- The loop of `reassemble`.  `out` is the part of the buffer that is written, and its length
the offset. -/
def reassembleFrom (P : Primitives F) (size : Nat) (getChunk : Cid → Option Bytes) :
    Bytes → List ChunkRef → Option Bytes
  | out, [] => if out.length = size then some out else none
  | out, ref :: rest =>
    match getChunk ref.cid with
    | none => none
    | some part =>
      if part.length ≠ ref.size ∨ verifyCid P ref.cid part = false then none
      else if size < out.length + part.length then none
      else reassembleFrom P size getChunk (out ++ part) rest

def reassemble (P : Primitives F) (manifest : Manifest) (getChunk : Cid → Option Bytes) :
    Option Bytes :=
  reassembleFrom P manifest.size getChunk [] manifest.chunks

/-! ## Numbers -/

/-- The digits of a double. -/
abbrev PRECISION : Nat := 53

/-- The double that an exact result is rounded to. -/
abbrev toDouble (x : ℚ) : ℚ := Rounding.nearest PRECISION x

/-- `Number.MAX_SAFE_INTEGER`. -/
def MAX_SAFE_INTEGER : Nat := 2 ^ 53 - 1

/-- `Number.isSafeInteger`. -/
def isSafeInteger (x : ℚ) : Bool := decide (x.den = 1 ∧ |x| ≤ MAX_SAFE_INTEGER)

/-- The `k` little-endian bytes of a whole number, less what does not fit into them. -/
def leBytes : Nat → Nat → Bytes
  | 0, _ => []
  | k + 1, v => UInt8.ofNat v :: leBytes k (v / 256)

/-- The whole number that little-endian bytes stand for. -/
def leValue : Bytes → Nat
  | [] => 0
  | b :: rest => b.toNat + 256 * leValue rest

/-- `view.getBigUint64(offset, true)`, which throws when it would read past the end. -/
def getBigUint64 (bytes : Bytes) (offset : Nat) : Except String Nat :=
  if bytes.length < offset + 8 then .error "Offset is outside the bounds of the DataView"
  else .ok (leValue ((bytes.drop offset).take 8))

/-! ## The manifest -/

/-- The address of a manifest: the hash of its logical fields. -/
def manifestCid (P : Primitives F) (size chunkSize : Nat) (chunks : List ChunkRef) : Cid :=
  hashJson P (.obj [("size", .int size), ("chunkSize", .int chunkSize),
    ("chunks", .arr (chunks.map ChunkRef.toJson))])

/-- Recompute a manifest's address, and add the sizes up. -/
def verifyManifest (P : Primitives F) (manifest : Manifest) : Bool :=
  let expected := manifestCid P manifest.size manifest.chunkSize manifest.chunks
  if expected ≠ manifest.cid then false
  else
    let total := manifest.chunks.foldl (fun s c => toDouble (s + c.size)) (0 : ℚ)
    decide (total = manifest.size)

/-! ## The encoder -/

/-- A space or a line end, as `parseInt` skips it. -/
def isStrSpace (c : Char) : Bool :=
  let code := c.toNat
  decide (code ∈ [9, 10, 11, 12, 13, 32, 0xA0, 0x1680, 0x2028, 0x2029, 0x202F, 0x205F, 0x3000,
    0xFEFF] ∨ 0x2000 ≤ code ∧ code ≤ 0x200A)

/-- `parseInt(text, 16)`; `none` is not-a-number. -/
def parseInt16 (text : List Char) : Option Int :=
  let s := text.dropWhile isStrSpace
  let negative := decide (s.head? = some '-')
  let s := if s.head? = some '-' ∨ s.head? = some '+' then s.drop 1 else s
  let s := if s.take 2 = ['0', 'x'] ∨ s.take 2 = ['0', 'X'] then s.drop 2 else s
  let digits := (s.takeWhile fun c => (hexValue c).isSome).filterMap hexValue
  if digits = [] then none
  else
    let value : Int := digits.foldl (fun v d => 16 * v + d) 0
    some (if negative then -value else value)

/-- A number stored into a `Uint8Array`; not-a-number is stored as zero. -/
def toUint8 : Option Int → UInt8
  | none => 0
  | some v => UInt8.ofNat (v % 256).toNat

def MANIFEST_WIRE_VERSION : UInt8 := 1

def WIRE_HEADER_BYTES : Nat := 20

/-- The loop over `b`: the digest that an address writes. -/
def digestOf (cid : Cid) : Bytes :=
  (List.range 32).map fun b => toUint8 (parseInt16 ((cid.toList.drop (b * 2)).take 2))

/-- The header has the version, three reserved bytes and the two sizes; the digests follow. -/
def encodeManifest (manifest : Manifest) : Bytes :=
  [MANIFEST_WIRE_VERSION, 0, 0, 0] ++ leBytes 8 manifest.size ++ leBytes 8 manifest.chunkSize ++
    manifest.chunks.flatMap fun c => digestOf c.cid

/-! ## The decoder -/

/-- The bytes of digest `i`; what is past the end reads as zero. -/
def digestAt (bytes : Bytes) (i : Nat) : Bytes :=
  (List.range 32).map fun b => bytes.getD (WIRE_HEADER_BYTES + i * 32 + b) 0

/-- The derived size of chunk `i` of `n`. -/
def derivedSize (size chunkSize : ℚ) (n i : Nat) : ℚ :=
  if i = n - 1 then toDouble (size - toDouble (chunkSize * toDouble (n - 1))) else chunkSize

/-- The checks on the two sizes, and the manifest that passes them. -/
def decodeBody (P : Primitives F) (bytes : Bytes) (n : Nat) (size chunkSize : ℚ) :
    Option Manifest :=
  if !isSafeInteger size || !isSafeInteger chunkSize then none
  else if size < 0 ∨ chunkSize ≤ 0 then none
  else if (n : ℤ) ≠ ⌈toDouble (size / chunkSize)⌉ ∧ ¬(size = 0 ∧ n = 0) then none
  else
    let chunks := (List.range n).map fun i =>
      { cid := bytesToHex (digestAt bytes i)
        size := ⌊derivedSize size chunkSize n i⌋₊ : ChunkRef }
    let cid := manifestCid P ⌊size⌋₊ ⌊chunkSize⌋₊ chunks
    some { cid, size := ⌊size⌋₊, chunkSize := ⌊chunkSize⌋₊, chunks }

/-- `decodeManifest(bytes)`: `none` for `null`. -/
def decodeManifest (P : Primitives F) (bytes : Bytes) : Except String (Option Manifest) :=
  if bytes.length < WIRE_HEADER_BYTES then .ok none
  else if bytes.head? ≠ some MANIFEST_WIRE_VERSION then .ok none
  else
    let body := bytes.length - WIRE_HEADER_BYTES
    if body % 32 ≠ 0 then .ok none
    else do
      let size ← getBigUint64 bytes 4
      let chunkSize ← getBigUint64 bytes 12
      .ok (decodeBody P bytes (body / 32) (toDouble size) (toDouble chunkSize))

/-! ## Little-endian numbers -/

@[simp] theorem length_leBytes : ∀ (k v : Nat), (leBytes k v).length = k
  | 0, _ => rfl
  | k + 1, v => by rw [leBytes, List.length_cons, length_leBytes k]

theorem leValue_leBytes : ∀ (k v : Nat), leValue (leBytes k v) = v % 256 ^ k
  | 0, v => by rw [leBytes, leValue, pow_zero, Nat.mod_one]
  | k + 1, v => by
    have hlow : (UInt8.ofNat v).toNat = v % 256 := UInt8.toNat_ofNat'
    rw [leBytes, leValue, leValue_leBytes k, hlow, pow_succ', Nat.mod_mul]

theorem leBytes_leValue : ∀ bytes : Bytes, leBytes bytes.length (leValue bytes) = bytes
  | [] => rfl
  | b :: rest => by
    have hb : b.toNat < 256 := b.toNat_lt
    have hlow : UInt8.ofNat (b.toNat + 256 * leValue rest) = b := by
      apply UInt8.toNat_inj.mp
      have hmod : (UInt8.ofNat (b.toNat + 256 * leValue rest)).toNat =
          (b.toNat + 256 * leValue rest) % 256 := UInt8.toNat_ofNat'
      omega
    have hhigh : (b.toNat + 256 * leValue rest) / 256 = leValue rest := by omega
    rw [List.length_cons, leValue, leBytes, hlow, hhigh, leBytes_leValue rest]

/-! ## Exact arithmetic below the limit -/

theorem safe_iff {v : Nat} : v ≤ MAX_SAFE_INTEGER ↔ v < 2 ^ PRECISION :=
  (Nat.lt_iff_le_pred (Nat.two_pow_pos PRECISION)).symm

theorem toDouble_natCast {v : Nat} (h : v ≤ MAX_SAFE_INTEGER) : toDouble v = v :=
  Rounding.nearest_natCast (by decide) (safe_iff.mp h)

theorem isSafeInteger_toDouble (v : Nat) :
    isSafeInteger (toDouble v) = decide (v ≤ MAX_SAFE_INTEGER) := by
  rw [isSafeInteger, decide_eq_decide]
  constructor
  · rintro ⟨-, habs⟩
    by_contra hlarge
    have hpow : 2 ^ PRECISION ≤ v := not_lt.mp (mt safe_iff.mpr hlarge)
    have hround := Rounding.le_nearest_natCast (by decide) hpow
    have hle := (le_abs_self _).trans habs
    have hlimit : ((MAX_SAFE_INTEGER : ℕ) : ℚ) < 2 ^ PRECISION := by
      unfold MAX_SAFE_INTEGER
      norm_num
    exact absurd (hround.trans hle) (not_le.mpr hlimit)
  · intro h
    rw [toDouble_natCast h, Rat.den_natCast, abs_of_nonneg (Nat.cast_nonneg v)]
    exact ⟨rfl, by exact_mod_cast h⟩

/-- So many chunks of one size hold the content, and one less does not. -/
structure Covers (size chunkSize n : Nat) : Prop where
  enough : size ≤ chunkSize * n
  needed : chunkSize * n < size + chunkSize

theorem exists_covers (size : Nat) {chunkSize : Nat} (h : 1 ≤ chunkSize) :
    ∃ n, Covers size chunkSize n := by
  refine ⟨(size + (chunkSize - 1)) / chunkSize, ?_, ?_⟩
  · have hmod := Nat.div_add_mod (size + (chunkSize - 1)) chunkSize
    have hlt := Nat.mod_lt (size + (chunkSize - 1)) h
    omega
  · have hle := Nat.mul_div_le (size + (chunkSize - 1)) chunkSize
    omega

variable {size chunkSize n : Nat}

theorem ceil_toDouble_div (hsize : size ≤ MAX_SAFE_INTEGER) (hpos : 1 ≤ chunkSize) :
    (n : ℤ) = ⌈toDouble ((size : ℚ) / chunkSize)⌉ ↔ Covers size chunkSize n := by
  have hpos' : (0 : ℚ) < chunkSize := by exact_mod_cast hpos
  rw [Rounding.ceil_nearest_div (by decide) (safe_iff.mp hsize) hpos, eq_comm, Int.ceil_eq_iff,
    lt_div_iff₀ hpos', div_le_iff₀ hpos']
  constructor
  · rintro ⟨hneeded, henough⟩
    refine ⟨?_, ?_⟩
    · rw [mul_comm]
      exact_mod_cast henough
    · have hneeded' : (n : ℚ) * chunkSize < size + chunkSize := by
        push_cast at hneeded
        linarith
      rw [mul_comm]
      exact_mod_cast hneeded'
  · rintro ⟨henough, hneeded⟩
    rw [mul_comm] at henough hneeded
    have henough' : (size : ℚ) ≤ n * chunkSize := by exact_mod_cast henough
    have hneeded' : (n : ℚ) * chunkSize < size + chunkSize := by exact_mod_cast hneeded
    push_cast
    exact ⟨by linarith, henough'⟩

/-- The size of chunk `i` of `n`: what is left for the last one. -/
def sizeAt (size chunkSize n i : Nat) : Nat :=
  if i = n - 1 then size - chunkSize * (n - 1) else chunkSize

section

variable (h : Covers size chunkSize n)
include h

theorem Covers.mul_pred_le : chunkSize * (n - 1) ≤ size := by
  have hneeded := h.needed
  cases n with
  | zero => simp
  | succ n =>
    rw [Nat.mul_succ] at hneeded
    rw [Nat.add_sub_cancel]
    omega

theorem Covers.sizeAt_le (i : Nat) : sizeAt size chunkSize n i ≤ chunkSize := by
  unfold sizeAt
  split
  · have henough := h.enough
    cases n with
    | zero =>
      rw [Nat.mul_zero] at henough
      omega
    | succ n =>
      rw [Nat.mul_succ] at henough
      rw [Nat.add_sub_cancel]
      omega
  · exact le_refl _

theorem Covers.sizeAt_pos
    (hpos : 1 ≤ chunkSize) {i : Nat} (hi : i < n) : 1 ≤ sizeAt size chunkSize n i := by
  unfold sizeAt
  split
  · have hneeded := h.needed
    cases n with
    | zero => exact absurd hi (Nat.not_lt_zero i)
    | succ n =>
      rw [Nat.mul_succ] at hneeded
      rw [Nat.add_sub_cancel]
      omega
  · exact hpos

theorem Covers.sum_sizeAt : ((List.range n).map (sizeAt size chunkSize n)).sum = size := by
  have hpred := h.mul_pred_le
  have henough := h.enough
  cases n with
  | zero =>
    rw [Nat.mul_zero] at henough
    simpa using (Nat.le_zero.mp henough).symm
  | succ n =>
    have hfull : ∀ i ∈ List.range n, sizeAt size chunkSize (n + 1) i = chunkSize := by
      intro i hi
      exact if_neg (List.mem_range.mp hi).ne
    rw [List.range_succ, List.map_append, List.sum_append, List.map_congr_left hfull,
      List.map_const', List.sum_replicate_nat, List.length_range]
    rw [Nat.add_sub_cancel] at hpred
    have hlast : sizeAt size chunkSize (n + 1) n = size - chunkSize * n := if_pos rfl
    rw [List.map_singleton, List.sum_singleton, hlast, mul_comm n]
    omega

end

theorem floor_derivedSize (hsize : size ≤ MAX_SAFE_INTEGER)
    (hcovers : Covers size chunkSize n) {i : Nat} (hi : i < n) :
    ⌊derivedSize size chunkSize n i⌋₊ = sizeAt size chunkSize n i := by
  unfold derivedSize sizeAt
  split
  case isFalse => exact Nat.floor_natCast chunkSize
  case isTrue =>
    have hpred := hcovers.mul_pred_le
    have hn : ((n : ℚ) - 1) = ((n - 1 : ℕ) : ℚ) := by
      rw [Nat.cast_sub (by omega), Nat.cast_one]
    have hpos : 0 < chunkSize := by
      have hneeded := hcovers.needed
      have henough := hcovers.enough
      omega
    have hcount : n - 1 ≤ chunkSize * (n - 1) := Nat.le_mul_of_pos_left _ hpos
    have hround : toDouble ((n : ℚ) - 1) = ((n - 1 : ℕ) : ℚ) := by
      rw [hn]
      exact toDouble_natCast (hcount.trans (hpred.trans hsize))
    have hproduct : toDouble ((chunkSize : ℚ) * ((n - 1 : ℕ) : ℚ)) =
        ((chunkSize * (n - 1) : ℕ) : ℚ) := by
      rw [← Nat.cast_mul]
      exact toDouble_natCast (hpred.trans hsize)
    have hrest : toDouble ((size : ℚ) - ((chunkSize * (n - 1) : ℕ) : ℚ)) =
        ((size - chunkSize * (n - 1) : ℕ) : ℚ) := by
      rw [← Nat.cast_sub hpred]
      exact toDouble_natCast ((Nat.sub_le _ _).trans hsize)
    rw [hround, hproduct, hrest, Nat.floor_natCast]

/-! ## Digests -/

theorem toUint8_parseInt16 : ∀ x < 16, ∀ y < 16,
    toUint8 (parseInt16 [hexDigit x, hexDigit y]) = UInt8.ofNat (16 * x + y) := by
  decide +kernel

theorem hexChars_pair : ∀ (d : Bytes) (i : Nat) (hi : i < d.length),
    ((hexChars d).drop (i * 2)).take 2 =
      [hexDigit (d[i].toNat / 16), hexDigit (d[i].toNat % 16)]
  | [], i, hi => absurd hi (Nat.not_lt_zero i)
  | x :: rest, 0, _ => rfl
  | x :: rest, i + 1, hi => by
    have hshift : (i + 1) * 2 = i * 2 + 2 := by omega
    rw [hexChars, hshift, List.drop_succ_cons, List.drop_succ_cons]
    exact hexChars_pair rest i (Nat.lt_of_succ_lt_succ hi)

theorem digestOf_bytesToHex {d : Bytes} (h : d.length = 32) : digestOf (bytesToHex d) = d := by
  refine List.ext_getElem (by simp [digestOf, h]) fun i hi hi' => ?_
  have hd : d[i].toNat < 256 := d[i].toNat_lt
  simp only [digestOf, List.getElem_map, List.getElem_range, bytesToHex, String.toList_ofList]
  rw [hexChars_pair d i hi', toUint8_parseInt16 _ (by omega) _ (by omega)]
  have hbyte : 16 * (d[i].toNat / 16) + d[i].toNat % 16 = d[i].toNat := Nat.div_add_mod _ 16
  rw [hbyte, UInt8.ofNat_toNat]

section Blocks

variable {f : Nat → Bytes} {n : Nat}

theorem length_flatMap_range (h : ∀ i < n, (f i).length = 32) :
    ((List.range n).flatMap f).length = 32 * n := by
  have hlengths : (List.range n).map (fun i => (f i).length) = (List.range n).map fun _ => 32 :=
    List.map_congr_left fun i hi => h i (List.mem_range.mp hi)
  rw [List.length_flatMap, hlengths, List.map_const', List.sum_replicate_nat, List.length_range,
    mul_comm]

theorem getD_flatMap_range : ∀ {n : Nat}, (∀ i < n, (f i).length = 32) → ∀ {i b : Nat}, i < n →
    b < 32 → ((List.range n).flatMap f).getD (i * 32 + b) 0 = (f i).getD b 0
  | 0, _, i, _, hi, _ => absurd hi (Nat.not_lt_zero i)
  | n + 1, h, i, b, hi, hb => by
    have hbefore : ∀ i < n, (f i).length = 32 := fun i hi => h i (Nat.lt_succ_of_lt hi)
    have hlength := length_flatMap_range hbefore
    rw [List.range_succ, List.flatMap_append, List.flatMap_singleton]
    rcases Nat.lt_succ_iff_lt_or_eq.mp hi with hlt | rfl
    · rw [List.getD_append _ _ _ _ (by omega)]
      exact getD_flatMap_range hbefore hlt hb
    · rw [List.getD_append_right _ _ _ _ (by omega), hlength]
      congr 1
      omega

@[simp] theorem length_digestAt (bytes : Bytes) (i : Nat) : (digestAt bytes i).length = 32 := by
  rw [digestAt, List.length_map, List.length_range]

theorem getD_digestAt (bytes : Bytes) (i : Nat) {b : Nat} (hb : b < 32) :
    (digestAt bytes i).getD b 0 = bytes.getD (WIRE_HEADER_BYTES + i * 32 + b) 0 := by
  simp [digestAt, List.getD_eq_getElem?_getD, List.getElem?_map, List.getElem?_range hb]

theorem flatMap_digestAt {bytes : Bytes} (h : bytes.length = WIRE_HEADER_BYTES + 32 * n) :
    (List.range n).flatMap (digestAt bytes) = bytes.drop WIRE_HEADER_BYTES := by
  have hlength := length_flatMap_range (n := n) fun i _ => length_digestAt bytes i
  refine List.ext_getElem (by rw [hlength, List.length_drop]; omega) fun k hk hk' => ?_
  have hsplit : k = k / 32 * 32 + k % 32 := by omega
  have hleft : ((List.range n).flatMap (digestAt bytes)).getD k 0 =
      bytes.getD (WIRE_HEADER_BYTES + k) 0 := by
    conv_lhs => rw [hsplit]
    rw [getD_flatMap_range (fun i _ => length_digestAt bytes i) (by omega) (by omega),
      getD_digestAt bytes _ (by omega)]
    congr 1
    omega
  rw [List.getD_eq_getElem _ _ hk, List.getD_eq_getElem _ _ (by omega)] at hleft
  rw [hleft, List.getElem_drop]

theorem digestAt_of_blocks {bytes : Bytes}
    (hbytes : bytes.drop WIRE_HEADER_BYTES = (List.range n).flatMap f)
    (h : ∀ i < n, (f i).length = 32) {i : Nat} (hi : i < n) : digestAt bytes i = f i := by
  refine List.ext_getElem (by rw [length_digestAt, h i hi]) fun b hb hb' => ?_
  rw [length_digestAt] at hb
  have hread : (digestAt bytes i).getD b 0 = (f i).getD b 0 := by
    rw [getD_digestAt bytes i hb, ← getD_flatMap_range h hi hb, ← hbytes,
      List.getD_eq_getElem?_getD, List.getD_eq_getElem?_getD, List.getElem?_drop, Nat.add_assoc]
  rw [List.getD_eq_getElem _ _ (by rw [length_digestAt]; exact hb),
    List.getD_eq_getElem _ _ hb'] at hread
  exact hread

end Blocks

/-! ## What the decoder accepts -/

/-- The manifest of content of `size` bytes in `n` chunks with these digests. -/
def manifestOf (P : Primitives F) (size chunkSize n : Nat) (digest : Nat → Bytes) : Manifest :=
  let chunks := (List.range n).map fun i =>
    { cid := bytesToHex (digest i), size := sizeAt size chunkSize n i : ChunkRef }
  { cid := manifestCid P size chunkSize chunks, size, chunkSize, chunks }

/-- The size in the header. -/
def wireSize (bytes : Bytes) : Nat := leValue ((bytes.drop 4).take 8)

/-- The chunk size in the header. -/
def wireChunkSize (bytes : Bytes) : Nat := leValue ((bytes.drop 12).take 8)

/-- How many digests follow the header. -/
def digestCount (bytes : Bytes) : Nat := (bytes.length - WIRE_HEADER_BYTES) / 32

/-- A whole number of digests after a header of the version, with two safe sizes that ask for
as many. -/
structure WireForm (bytes : Bytes) : Prop where
  length : bytes.length = WIRE_HEADER_BYTES + 32 * digestCount bytes
  version : bytes.head? = some MANIFEST_WIRE_VERSION
  size : wireSize bytes ≤ MAX_SAFE_INTEGER
  chunkSize_pos : 1 ≤ wireChunkSize bytes
  chunkSize : wireChunkSize bytes ≤ MAX_SAFE_INTEGER
  covers : Covers (wireSize bytes) (wireChunkSize bytes) (digestCount bytes)

/-- The manifest that such bytes stand for. -/
def wireManifest (P : Primitives F) (bytes : Bytes) : Manifest :=
  manifestOf P (wireSize bytes) (wireChunkSize bytes) (digestCount bytes) (digestAt bytes)

section Decoder

variable {P : Primitives F} {bytes : Bytes} {n size chunkSize : Nat} {manifest : Manifest}

theorem decodeBody_of_covers (hsize : size ≤ MAX_SAFE_INTEGER) (hpos : 1 ≤ chunkSize)
    (hchunk : chunkSize ≤ MAX_SAFE_INTEGER) (hcovers : Covers size chunkSize n) :
    decodeBody P bytes n (toDouble size) (toDouble chunkSize) =
      some (manifestOf P size chunkSize n (digestAt bytes)) := by
  have hguard : (!isSafeInteger (toDouble size) || !isSafeInteger (toDouble chunkSize)) =
      false := by
    rw [isSafeInteger_toDouble, isSafeInteger_toDouble, decide_eq_true hsize,
      decide_eq_true hchunk]
    rfl
  have hpositive : ¬((size : ℚ) < 0 ∨ (chunkSize : ℚ) ≤ 0) := by
    rintro (hneg | hzero)
    · exact absurd hneg (not_lt.mpr (Nat.cast_nonneg size))
    · exact absurd hzero (not_le.mpr (by exact_mod_cast hpos))
  have hcount := (ceil_toDouble_div hsize hpos).mpr hcovers
  have hchunks : (List.range n).map (fun i =>
        { cid := bytesToHex (digestAt bytes i)
          size := ⌊derivedSize size chunkSize n i⌋₊ : ChunkRef }) =
      (List.range n).map fun i =>
        { cid := bytesToHex (digestAt bytes i), size := sizeAt size chunkSize n i : ChunkRef } := by
    refine List.map_congr_left fun i hi => ?_
    rw [floor_derivedSize hsize hcovers (List.mem_range.mp hi)]
  rw [decodeBody, if_neg (by rw [hguard]; exact Bool.false_ne_true), toDouble_natCast hsize,
    toDouble_natCast hchunk, if_neg hpositive, if_neg (fun h => h.1 hcount)]
  simp only [hchunks, Nat.floor_natCast]
  rfl

theorem covers_of_decodeBody
    (h : decodeBody P bytes n (toDouble size) (toDouble chunkSize) = some manifest) :
    size ≤ MAX_SAFE_INTEGER ∧ 1 ≤ chunkSize ∧ chunkSize ≤ MAX_SAFE_INTEGER ∧
      Covers size chunkSize n := by
  rw [decodeBody, isSafeInteger_toDouble, isSafeInteger_toDouble] at h
  split at h
  · cases h
  case isFalse hguard =>
    have hsafe : size ≤ MAX_SAFE_INTEGER ∧ chunkSize ≤ MAX_SAFE_INTEGER := by
      simpa [not_lt] using hguard
    rw [toDouble_natCast hsafe.1, toDouble_natCast hsafe.2] at h
    split at h
    · cases h
    case isFalse hpositive =>
      have hpos : 1 ≤ chunkSize := by
        have hne : ¬(chunkSize : ℚ) ≤ 0 := fun hle => hpositive (Or.inr hle)
        exact_mod_cast not_le.mp hne
      split at h
      · cases h
      case isFalse hcount =>
        refine ⟨hsafe.1, hpos, hsafe.2, ?_⟩
        rw [not_and_or, not_not, not_not] at hcount
        rcases hcount with hcount | ⟨hsize, rfl⟩
        · exact (ceil_toDouble_div hsafe.1 hpos).mp hcount
        · have hzero : size = 0 := by exact_mod_cast hsize
          exact ⟨by omega, by omega⟩

theorem decodeManifest_of_length (hlength : WIRE_HEADER_BYTES ≤ bytes.length) :
    decodeManifest P bytes =
      if bytes.head? ≠ some MANIFEST_WIRE_VERSION then .ok none
      else if (bytes.length - WIRE_HEADER_BYTES) % 32 ≠ 0 then .ok none
      else
        .ok (decodeBody P bytes (digestCount bytes) (toDouble (wireSize bytes))
          (toDouble (wireChunkSize bytes))) := by
  have hheader : WIRE_HEADER_BYTES = 20 := rfl
  have hsize : getBigUint64 bytes 4 = .ok (wireSize bytes) := if_neg (by omega)
  have hchunk : getBigUint64 bytes 12 = .ok (wireChunkSize bytes) := if_neg (by omega)
  rw [decodeManifest, if_neg (not_lt.mpr hlength), hsize, hchunk]
  rfl

theorem decodeManifest_isOk (P : Primitives F) (bytes : Bytes) :
    ∃ result, decodeManifest P bytes = .ok result := by
  by_cases hlength : bytes.length < WIRE_HEADER_BYTES
  · exact ⟨none, if_pos hlength⟩
  · rw [decodeManifest_of_length (not_lt.mp hlength)]
    split
    · exact ⟨none, rfl⟩
    split
    · exact ⟨none, rfl⟩
    · exact ⟨_, rfl⟩

theorem decodeManifest_of_wireForm (h : WireForm bytes) :
    decodeManifest P bytes = .ok (some (wireManifest P bytes)) := by
  have hlength := h.length
  have hbody : ¬(bytes.length - WIRE_HEADER_BYTES) % 32 ≠ 0 := by omega
  rw [decodeManifest_of_length (by omega), if_neg (not_not.mpr h.version), if_neg hbody,
    decodeBody_of_covers h.size h.chunkSize_pos h.chunkSize h.covers]
  rfl

theorem wireForm_of_decodeManifest (h : decodeManifest P bytes = .ok (some manifest)) :
    WireForm bytes := by
  by_cases hlength : bytes.length < WIRE_HEADER_BYTES
  · rw [decodeManifest, if_pos hlength] at h
    cases h
  · rw [decodeManifest_of_length (not_lt.mp hlength)] at h
    split at h
    · cases h
    case isFalse hversion =>
      split at h
      · cases h
      case isFalse hbody =>
        obtain ⟨hsize, hpos, hchunk, hcovers⟩ := covers_of_decodeBody (Except.ok.inj h)
        refine ⟨?_, not_not.mp hversion, hsize, hpos, hchunk, hcovers⟩
        unfold digestCount
        omega

end Decoder

/-! ## Encoding what was decoded -/

section Encoder

variable {P : Primitives F} {bytes : Bytes} {n size chunkSize : Nat} {digest : Nat → Bytes}

theorem encodeManifest_manifestOf (hdigest : ∀ i < n, (digest i).length = 32) :
    encodeManifest (manifestOf P size chunkSize n digest) =
      [MANIFEST_WIRE_VERSION, 0, 0, 0] ++ leBytes 8 size ++ leBytes 8 chunkSize ++
        (List.range n).flatMap digest := by
  have hdigests : (manifestOf P size chunkSize n digest).chunks.flatMap (fun c => digestOf c.cid) =
      (List.range n).flatMap digest := by
    rw [manifestOf, List.flatMap_map]
    refine List.flatMap_congr fun i hi => ?_
    exact digestOf_bytesToHex (hdigest i (List.mem_range.mp hi))
  rw [encodeManifest, hdigests]
  rfl

/-- The bytes between the version and the sizes. -/
def reserved (bytes : Bytes) : Bytes := (bytes.drop 1).take 3

theorem encodeManifest_wireManifest (h : WireForm bytes) :
    encodeManifest (wireManifest P bytes) =
      [MANIFEST_WIRE_VERSION, 0, 0, 0] ++ bytes.drop 4 := by
  have hlength := h.length
  have hheader : WIRE_HEADER_BYTES = 20 := rfl
  have hsize : leBytes 8 (wireSize bytes) = (bytes.drop 4).take 8 := by
    have hwrite := leBytes_leValue ((bytes.drop 4).take 8)
    rwa [List.length_take, List.length_drop, min_eq_left (by omega)] at hwrite
  have hchunk : leBytes 8 (wireChunkSize bytes) = (bytes.drop 12).take 8 := by
    have hwrite := leBytes_leValue ((bytes.drop 12).take 8)
    rwa [List.length_take, List.length_drop, min_eq_left (by omega)] at hwrite
  have hrest : (bytes.drop 4).take 8 ++ ((bytes.drop 12).take 8 ++ bytes.drop 20) =
      bytes.drop 4 := by
    have hsecond : (bytes.drop 12).take 8 ++ bytes.drop 20 = bytes.drop 12 := by
      simpa [List.drop_drop] using List.take_append_drop 8 (bytes.drop 12)
    rw [hsecond]
    simpa [List.drop_drop] using List.take_append_drop 8 (bytes.drop 4)
  rw [wireManifest, encodeManifest_manifestOf fun i _ => length_digestAt bytes i, hsize, hchunk,
    flatMap_digestAt hlength, hheader, List.append_assoc, List.append_assoc, hrest]

theorem encodeManifest_wireManifest_iff (h : WireForm bytes) :
    encodeManifest (wireManifest P bytes) = bytes ↔ reserved bytes = [0, 0, 0] := by
  have hlength := h.length
  have hheader : WIRE_HEADER_BYTES = 20 := rfl
  have hversion := h.version
  rw [encodeManifest_wireManifest h]
  rcases bytes with _ | ⟨b0, _ | ⟨b1, _ | ⟨b2, _ | ⟨b3, rest⟩⟩⟩⟩
  iterate 4
    simp only [List.length_cons, List.length_nil] at hlength
    omega
  have hb0 : b0 = MANIFEST_WIRE_VERSION := Option.some.inj hversion
  simp [reserved, hb0, eq_comm]

end Encoder

/-! ## The sizes of a decoded manifest -/

theorem foldl_toDouble : ∀ (chunks : List ChunkRef) (acc : Nat),
    acc + (chunks.map ChunkRef.size).sum ≤ MAX_SAFE_INTEGER →
      chunks.foldl (fun s c => toDouble (s + c.size)) (acc : ℚ) =
        ((acc + (chunks.map ChunkRef.size).sum : ℕ) : ℚ)
  | [], acc, _ => by simp
  | c :: rest, acc, h => by
    rw [List.map_cons, List.sum_cons, ← Nat.add_assoc] at h
    have hfirst : toDouble ((acc : ℚ) + c.size) = ((acc + c.size : ℕ) : ℚ) := by
      rw [← Nat.cast_add]
      exact toDouble_natCast ((Nat.le_add_right _ _).trans h)
    rw [List.foldl_cons, hfirst, foldl_toDouble rest (acc + c.size) h, List.map_cons,
      List.sum_cons, ← Nat.add_assoc]

section Sizes

variable {P : Primitives F} {n size chunkSize : Nat} {digest : Nat → Bytes}

theorem verifyManifest_manifestOf (hsize : size ≤ MAX_SAFE_INTEGER)
    (hcovers : Covers size chunkSize n) :
    verifyManifest P (manifestOf P size chunkSize n digest) = true := by
  have hsizes : ((manifestOf P size chunkSize n digest).chunks.map ChunkRef.size).sum = size := by
    rw [manifestOf, List.map_map]
    exact hcovers.sum_sizeAt
  have htotal := foldl_toDouble (manifestOf P size chunkSize n digest).chunks 0
    (by rw [hsizes, Nat.zero_add]; exact hsize)
  rw [hsizes, Nat.zero_add, Nat.cast_zero] at htotal
  have hcid : ¬manifestCid P (manifestOf P size chunkSize n digest).size
      (manifestOf P size chunkSize n digest).chunkSize
      (manifestOf P size chunkSize n digest).chunks ≠
        (manifestOf P size chunkSize n digest).cid := not_not.mpr rfl
  rw [verifyManifest, if_neg hcid, htotal]
  exact decide_eq_true rfl

end Sizes

/-- What a strict decoder promises of a manifest that it accepts. -/
structure StrictlyDecoded (P : Primitives F) (bytes : Bytes) (manifest : Manifest) : Prop where
  verified : verifyManifest P manifest = true
  full : ∀ i, i + 1 < manifest.chunks.length →
    (manifest.chunks[i]?).map ChunkRef.size = some manifest.chunkSize
  last : ∀ c, manifest.chunks.getLast? = some c → 1 ≤ c.size ∧ c.size ≤ manifest.chunkSize
  canonical : encodeManifest manifest = bytes

/-- The decoder does not throw, and what it accepts it accepts strictly. -/
def DecodesStrictly (P : Primitives F) (bytes : Bytes) : Prop :=
  ∃ result, decodeManifest P bytes = .ok result ∧
    ∀ manifest, result = some manifest → StrictlyDecoded P bytes manifest

theorem strictlyDecoded_iff {P : Primitives F} {bytes : Bytes} (h : WireForm bytes) :
    StrictlyDecoded P bytes (wireManifest P bytes) ↔ reserved bytes = [0, 0, 0] := by
  rw [← encodeManifest_wireManifest_iff (P := P) h]
  refine ⟨StrictlyDecoded.canonical, fun hcanonical => ?_⟩
  refine ⟨verifyManifest_manifestOf h.size h.covers, ?_, ?_, hcanonical⟩
  · intro i hi
    have hcount : (wireManifest P bytes).chunks.length = digestCount bytes := by
      simp [wireManifest, manifestOf]
    rw [hcount] at hi
    have hfull : sizeAt (wireSize bytes) (wireChunkSize bytes) (digestCount bytes) i =
        wireChunkSize bytes := if_neg (by omega)
    simp [wireManifest, manifestOf, List.getElem?_range (Nat.lt_of_succ_lt hi), hfull]
  · intro c hc
    have hmem := List.mem_of_getLast? hc
    simp only [wireManifest, manifestOf, List.mem_map, List.mem_range] at hmem
    obtain ⟨i, hi, rfl⟩ := hmem
    exact ⟨h.covers.sizeAt_pos h.chunkSize_pos hi, h.covers.sizeAt_le i⟩

/-- The decoder is strict about everything except the reserved bytes. -/
theorem decodeManifest_strict_iff (P : Primitives F) (bytes : Bytes) :
    DecodesStrictly P bytes ↔ (WireForm bytes → reserved bytes = [0, 0, 0]) := by
  constructor
  · rintro ⟨result, hresult, hstrict⟩ hform
    rw [decodeManifest_of_wireForm hform] at hresult
    exact (strictlyDecoded_iff hform).mp (hstrict _ (Except.ok.inj hresult).symm)
  · intro hreserved
    obtain ⟨result, hresult⟩ := decodeManifest_isOk P bytes
    refine ⟨result, hresult, ?_⟩
    rintro manifest rfl
    have hform := wireForm_of_decodeManifest hresult
    rw [decodeManifest_of_wireForm hform] at hresult
    rw [← Option.some.inj (Except.ok.inj hresult)]
    exact (strictlyDecoded_iff hform).mpr (hreserved hform)

/-- A header of empty content, in chunks of one byte, with a reserved byte set. -/
def reservedByteSet : Bytes := [1, 0, 0, 7, 0, 0, 0, 0, 0, 0, 0, 0, 1, 0, 0, 0, 0, 0, 0, 0]

theorem wireForm_reservedByteSet : WireForm reservedByteSet where
  length := rfl
  version := rfl
  size := by decide
  chunkSize_pos := by decide
  chunkSize := by decide
  covers := ⟨by decide, by decide⟩

/-- It is accepted, and encoded it is something else. -/
theorem decodeManifest_reserved_ignored :
    ¬∀ bytes : Bytes, DecodesStrictly Sample.primitives bytes := by
  intro hstrict
  obtain ⟨result, hresult, hdecoded⟩ := hstrict reservedByteSet
  rw [decodeManifest_of_wireForm wireForm_reservedByteSet] at hresult
  have hcanonical := hdecoded _ (Except.ok.inj hresult).symm
  have hreserved := (strictlyDecoded_iff wireForm_reservedByteSet).mp hcanonical
  exact absurd hreserved (by decide)

/-! ## Chunks -/

/-- The bytes of chunk `i`. -/
def partAt (chunkSize : Nat) (bytes : Bytes) (i : Nat) : Bytes :=
  (bytes.drop (i * chunkSize)).take chunkSize

def chunkAt (P : Primitives F) (chunkSize : Nat) (bytes : Bytes) (i : Nat) : Chunk :=
  { cid := cidOf P (partAt chunkSize bytes i), bytes := partAt chunkSize bytes i }

section Chunking

variable {P : Primitives F} {chunkSize n : Nat} {bytes : Bytes}

theorem Covers.tail {size : Nat} (h : Covers size chunkSize (n + 1)) :
    Covers (size - chunkSize) chunkSize n := by
  have henough := h.enough
  have hneeded := h.needed
  rw [Nat.mul_succ] at henough hneeded
  refine ⟨by omega, ?_⟩
  rcases Nat.lt_or_ge size chunkSize with hlt | hge
  · have hzero : chunkSize * n < chunkSize := by omega
    omega
  · omega

/-- The loop cuts chunk `i` at `i` times the chunk size. -/
theorem chunksOf_eq (hpos : 1 ≤ chunkSize) : ∀ (fuel : Nat) {bytes : Bytes} {n : Nat},
    bytes.length ≤ fuel → Covers bytes.length chunkSize n →
      chunksOf P chunkSize fuel bytes = (List.range n).map (chunkAt P chunkSize bytes)
  | 0, bytes, n, hfuel, h => by
    have hzero : n = 0 := by
      by_contra hne
      have hle : chunkSize * 1 ≤ chunkSize * n := Nat.mul_le_mul_left _ (by omega)
      have hneeded := h.needed
      omega
    rw [hzero]
    rfl
  | fuel + 1, bytes, n, hfuel, h => by
    rw [chunksOf]
    cases n with
    | zero =>
      have hempty : bytes = [] := by
        have henough := h.enough
        exact List.length_eq_zero_iff.mp (by omega)
      rw [hempty]
      rfl
    | succ n =>
      have hsome : ¬bytes.isEmpty = true := by
        intro hempty
        have hlength : bytes.length = 0 := by rw [List.isEmpty_iff.mp hempty]; rfl
        have hneeded := h.needed
        rw [Nat.mul_succ] at hneeded
        omega
      have htail := h.tail
      rw [← List.length_drop] at htail
      have hrest : (bytes.drop chunkSize).length ≤ fuel := by
        rw [List.length_drop]
        omega
      rw [if_neg hsome, chunksOf_eq hpos fuel hrest htail, List.range_succ_eq_map,
        List.map_cons, List.map_map]
      refine congrArg₂ List.cons ?_ (List.map_congr_left fun i _ => ?_)
      · rw [chunkAt, partAt, Nat.zero_mul, List.drop_zero]
      · have hplace : chunkSize + i * chunkSize = (i + 1) * chunkSize := by
          rw [Nat.add_mul, Nat.one_mul, Nat.add_comm]
        simp only [chunkAt, partAt, List.drop_drop, Function.comp_apply, hplace]

theorem flatMap_chunksOf (hpos : 1 ≤ chunkSize) : ∀ (fuel : Nat) {bytes : Bytes},
    bytes.length ≤ fuel → (chunksOf P chunkSize fuel bytes).flatMap Chunk.bytes = bytes
  | 0, bytes, hfuel => (List.length_eq_zero_iff.mp (Nat.le_zero.mp hfuel)).symm
  | fuel + 1, bytes, hfuel => by
    rw [chunksOf]
    split
    case isTrue hempty => exact (List.isEmpty_iff.mp hempty).symm
    case isFalse hsome =>
      have hlength : 0 < bytes.length := List.length_pos_iff.mpr (by simpa using hsome)
      have hrest : (bytes.drop chunkSize).length ≤ fuel := by
        rw [List.length_drop]
        omega
      rw [List.flatMap_cons, flatMap_chunksOf hpos fuel hrest, List.take_append_drop]

theorem length_partAt (h : Covers bytes.length chunkSize n) {i : Nat} (hi : i < n) :
    (partAt chunkSize bytes i).length = sizeAt bytes.length chunkSize n i := by
  have hneeded := h.needed
  have henough := h.enough
  rw [partAt, List.length_take, List.length_drop]
  obtain ⟨m, rfl⟩ : ∃ m, n = m + 1 := ⟨n - 1, by omega⟩
  rw [Nat.mul_succ] at hneeded henough
  unfold sizeAt
  rw [Nat.add_sub_cancel]
  split
  case isTrue heq =>
    rw [heq, Nat.mul_comm m]
    omega
  case isFalse hne =>
    have hplace : chunkSize * (i + 1) ≤ chunkSize * m := Nat.mul_le_mul_left _ (by omega)
    rw [Nat.mul_succ] at hplace
    rw [Nat.mul_comm i]
    omega

theorem chunkContent_eq (hpos : 1 ≤ chunkSize) (h : Covers bytes.length chunkSize n) :
    chunkContent P bytes chunkSize =
      some (manifestOf P bytes.length chunkSize n fun i => P.sha256 (partAt chunkSize bytes i),
        (List.range n).map (chunkAt P chunkSize bytes)) := by
  have hchunks := chunksOf_eq (P := P) hpos bytes.length (le_refl _) h
  have hrefs : ((List.range n).map (chunkAt P chunkSize bytes)).map (fun c =>
        { cid := c.cid, size := c.bytes.length : ChunkRef }) =
      (List.range n).map fun i =>
        { cid := bytesToHex (P.sha256 (partAt chunkSize bytes i))
          size := sizeAt bytes.length chunkSize n i : ChunkRef } := by
    rw [List.map_map]
    refine List.map_congr_left fun i hi => ?_
    rw [← length_partAt h (List.mem_range.mp hi)]
    rfl
  rw [chunkContent, if_neg (by omega)]
  simp only [hchunks, hrefs]
  rfl

end Chunking

/-! ## Back to bytes -/

/-- No two different chunks of the content have one digest. -/
def DistinctDigests (P : Primitives F) (chunks : List Chunk) : Prop :=
  ∀ c ∈ chunks, ∀ c' ∈ chunks, P.sha256 c.bytes = P.sha256 c'.bytes → c.bytes = c'.bytes

/-- A lookup by address: under the address of a chunk it finds a chunk of that address. -/
def LooksUp (chunks : List Chunk) (getChunk : Cid → Option Bytes) : Prop :=
  ∀ c ∈ chunks, ∃ c' ∈ chunks, c'.cid = c.cid ∧ getChunk c.cid = some c'.bytes

/-- The first chunk of an address. -/
def lookup (chunks : List Chunk) (cid : Cid) : Option Bytes :=
  (chunks.find? fun c => c.cid = cid).map Chunk.bytes

theorem looksUp_lookup (chunks : List Chunk) : LooksUp chunks (lookup chunks) := by
  intro c hc
  cases hfind : chunks.find? fun c' => c'.cid = c.cid with
  | none =>
    have hnone := List.find?_eq_none.mp hfind c hc
    exact absurd (decide_eq_true rfl) hnone
  | some c' =>
    have hcid : c'.cid = c.cid := by simpa using List.find?_some hfind
    exact ⟨c', List.mem_of_find?_eq_some hfind, hcid, by rw [lookup, hfind]; rfl⟩

section Reassembly

variable {P : Primitives F} {chunkSize n : Nat} {bytes : Bytes}

theorem reassembleFrom_eq {size : Nat} {getChunk : Cid → Option Bytes} :
    ∀ (chunks : List Chunk) (out : Bytes),
      (∀ c ∈ chunks, c.cid = cidOf P c.bytes ∧ getChunk c.cid = some c.bytes) →
      out.length + (chunks.flatMap Chunk.bytes).length = size →
      reassembleFrom P size getChunk out
          (chunks.map fun c => { cid := c.cid, size := c.bytes.length }) =
        some (out ++ chunks.flatMap Chunk.bytes)
  | [], out, _, hsize => by
    rw [List.flatMap_nil, List.length_nil, Nat.add_zero] at hsize
    rw [List.map_nil, reassembleFrom, if_pos hsize, List.flatMap_nil, List.append_nil]
  | c :: rest, out, hfound, hsize => by
    obtain ⟨hcid, hget⟩ := hfound c List.mem_cons_self
    have hverify : ¬(c.bytes.length ≠ c.bytes.length ∨ verifyCid P c.cid c.bytes = false) := by
      simp [verifyCid, hcid]
    rw [List.flatMap_cons, List.length_append, ← Nat.add_assoc] at hsize
    have hfits : ¬size < out.length + c.bytes.length := by omega
    rw [List.map_cons, reassembleFrom]
    simp only [hget]
    rw [if_neg hverify, if_neg hfits, reassembleFrom_eq rest (out ++ c.bytes)
      (fun c' hc' => hfound c' (List.mem_cons_of_mem c hc'))
      (by rw [List.length_append]; exact hsize), List.flatMap_cons, List.append_assoc]

theorem reassemble_chunkContent (hpos : 1 ≤ chunkSize) {manifest : Manifest} {chunks : List Chunk}
    (h : chunkContent P bytes chunkSize = some (manifest, chunks))
    (hfree : DistinctDigests P chunks) {getChunk : Cid → Option Bytes}
    (hlookup : LooksUp chunks getChunk) :
    reassemble P manifest getChunk = some bytes := by
  obtain ⟨n, hcovers⟩ := exists_covers bytes.length hpos
  have haddress : ∀ c ∈ chunks, c.cid = cidOf P c.bytes := by
    rw [chunkContent_eq hpos hcovers] at h
    cases h
    intro c hc
    obtain ⟨i, -, rfl⟩ := List.mem_map.mp hc
    rfl
  have hfound : ∀ c ∈ chunks, c.cid = cidOf P c.bytes ∧ getChunk c.cid = some c.bytes := by
    intro c hc
    refine ⟨haddress c hc, ?_⟩
    obtain ⟨c', hc', hcid, hget⟩ := hlookup c hc
    rw [haddress c hc, haddress c' hc'] at hcid
    rw [hget, hfree c' hc' c hc (bytesToHex_injective hcid)]
  have hchunks := chunks_of_chunkContent h
  have hcontent : chunks.flatMap Chunk.bytes = bytes := by
    rw [hchunks]
    exact flatMap_chunksOf hpos bytes.length (le_refl _)
  have hmanifest : manifest.size = bytes.length ∧
      manifest.chunks = chunks.map fun c => { cid := c.cid, size := c.bytes.length } := by
    unfold chunkContent at h
    rw [if_neg (by omega)] at h
    cases h
    exact ⟨rfl, rfl⟩
  have hsize : ([] : Bytes).length + (chunks.flatMap Chunk.bytes).length = manifest.size := by
    rw [hcontent, hmanifest.1, List.length_nil, Nat.zero_add]
  have hloop := reassembleFrom_eq chunks [] hfound hsize
  rw [reassemble, hmanifest.2, hloop, hcontent, List.nil_append]

end Reassembly

/-! ## Decoding what was encoded -/

section RoundTrip

variable {P : Primitives F} {n size chunkSize : Nat} {digest digest' : Nat → Bytes}

theorem manifestOf_congr (h : ∀ i < n, digest i = digest' i) :
    manifestOf P size chunkSize n digest = manifestOf P size chunkSize n digest' := by
  have hchunks : (List.range n).map (fun i =>
        { cid := bytesToHex (digest i), size := sizeAt size chunkSize n i : ChunkRef }) =
      (List.range n).map fun i =>
        { cid := bytesToHex (digest' i), size := sizeAt size chunkSize n i : ChunkRef } := by
    refine List.map_congr_left fun i hi => ?_
    rw [h i (List.mem_range.mp hi)]
  simp only [manifestOf, hchunks]

theorem header_encodeManifest (hdigest : ∀ i < n, (digest i).length = 32) :
    ∀ bytes, bytes = encodeManifest (manifestOf P size chunkSize n digest) →
      bytes.length = WIRE_HEADER_BYTES + 32 * n ∧
      bytes.head? = some MANIFEST_WIRE_VERSION ∧
      wireSize bytes = size % 256 ^ 8 ∧ wireChunkSize bytes = chunkSize % 256 ^ 8 ∧
      bytes.drop WIRE_HEADER_BYTES = (List.range n).flatMap digest := by
  rintro bytes rfl
  rw [encodeManifest_manifestOf hdigest, wireSize, wireChunkSize, ← leValue_leBytes,
    ← leValue_leBytes]
  have hheader : WIRE_HEADER_BYTES = 20 := rfl
  have hbody := length_flatMap_range hdigest
  have hsize := length_leBytes 8 size
  have hchunk := length_leBytes 8 chunkSize
  generalize leBytes 8 size = a at *
  generalize leBytes 8 chunkSize = b at *
  generalize (List.range n).flatMap digest = d at *
  refine ⟨?_, rfl, ?_, ?_, ?_⟩
  · simp only [List.length_append, List.length_cons, List.length_nil]
    omega
  · have htake : ([MANIFEST_WIRE_VERSION, 0, 0, 0] ++ a ++ b ++ d).drop 4 = a ++ (b ++ d) := by simp
    rw [htake, ← hsize, List.take_left]
  · have htake : ([MANIFEST_WIRE_VERSION, 0, 0, 0] ++ a ++ b ++ d).drop 12 = b ++ d := by
      simp [hsize]
    rw [htake, ← hchunk, List.take_left]
  · simp [List.drop_append, hsize, hchunk, hheader]

/-- A manifest survives the wire exactly when its chunk size is a safe integer. -/
theorem decodeManifest_encodeManifest_iff (hdigest : ∀ i < n, (digest i).length = 32)
    (hsize : size ≤ MAX_SAFE_INTEGER) (hpos : 1 ≤ chunkSize) (hcovers : Covers size chunkSize n) :
    decodeManifest P (encodeManifest (manifestOf P size chunkSize n digest)) =
        .ok (some (manifestOf P size chunkSize n digest)) ↔
      chunkSize ≤ MAX_SAFE_INTEGER := by
  obtain ⟨hlength, hversion, hwireSize, hwireChunk, hbody⟩ :=
    @header_encodeManifest F P n size chunkSize digest hdigest _ rfl
  generalize encodeManifest (manifestOf P size chunkSize n digest) = bytes at *
  have hcount : digestCount bytes = n := by
    unfold digestCount
    omega
  have hfits : ∀ v ≤ MAX_SAFE_INTEGER, v % 256 ^ 8 = v := by
    intro v hv
    have hlimit : MAX_SAFE_INTEGER < 256 ^ 8 := by decide
    exact Nat.mod_eq_of_lt (hv.trans_lt hlimit)
  rw [hfits size hsize] at hwireSize
  constructor
  · intro hdecode
    have hform := wireForm_of_decodeManifest hdecode
    rw [decodeManifest_of_wireForm hform] at hdecode
    have hsame := congrArg Manifest.chunkSize (Option.some.inj (Except.ok.inj hdecode))
    have hchunk : wireChunkSize bytes = chunkSize := hsame
    rw [← hchunk]
    exact hform.chunkSize
  · intro hchunk
    rw [hfits chunkSize hchunk] at hwireChunk
    have hform : WireForm bytes :=
      { length := by rw [hcount]; exact hlength
        version := hversion
        size := by rw [hwireSize]; exact hsize
        chunkSize_pos := by rw [hwireChunk]; exact hpos
        chunkSize := by rw [hwireChunk]; exact hchunk
        covers := by rw [hwireSize, hwireChunk, hcount]; exact hcovers }
    rw [decodeManifest_of_wireForm hform, wireManifest, hwireSize, hwireChunk, hcount,
      manifestOf_congr fun i hi => digestAt_of_blocks hbody hdigest hi]

end RoundTrip

/-- The content of a file: no longer than an array can be. -/
abbrev Content := { bytes : Bytes // bytes.length ≤ MAX_SAFE_INTEGER }

/-- Content that is cut into chunks is described by a manifest that verifies, is put together
again from its chunks, and survives the wire exactly when the chunk size is a safe integer. -/
theorem chunking_round_trip (P : Primitives F) (hsha : ∀ bytes, (P.sha256 bytes).length = 32)
    (content : Content) (chunkSize : Nat) (hpos : 1 ≤ chunkSize) :
    ∃ manifest chunks, chunkContent P content.1 chunkSize = some (manifest, chunks) ∧
      (∀ c ∈ chunks, c.bytes.length ≤ chunkSize) ∧
      verifyManifest P manifest = true ∧
      (DistinctDigests P chunks → ∀ getChunk, LooksUp chunks getChunk →
        reassemble P manifest getChunk = some content.1) ∧
      (decodeManifest P (encodeManifest manifest) = .ok (some manifest) ↔
        chunkSize ≤ MAX_SAFE_INTEGER) := by
  obtain ⟨n, hcovers⟩ := exists_covers content.1.length hpos
  have hchunked := chunkContent_eq (P := P) hpos hcovers
  refine ⟨_, _, hchunked, ?_, verifyManifest_manifestOf content.2 hcovers, ?_, ?_⟩
  · intro c hc
    rw [chunks_of_chunkContent hchunked] at hc
    exact length_le_of_mem_chunksOf hc
  · intro hfree getChunk hlookup
    exact reassemble_chunkContent hpos hchunked hfree hlookup
  · exact decodeManifest_encodeManifest_iff (fun i _ => hsha _) content.2 hpos hcovers

/-! ## A file with a repeated chunk -/

/-- The sample primitives, with a digest as long as the real one. -/
def longDigests : Primitives Rat :=
  { Sample.primitives with
    sha256 := fun bytes => Sample.digest bytes ++ List.replicate 28 0 }

theorem length_longDigests (bytes : Bytes) : (longDigests.sha256 bytes).length = 32 := by
  simp [longDigests, Sample.digest]

/-- Seven bytes in chunks of three, two of them alike. -/
def repeatedBytes : Bytes := [1, 2, 3, 1, 2, 3, 4]

theorem length_repeatedBytes : repeatedBytes.length ≤ MAX_SAFE_INTEGER := by decide

def repeatedContent : Content := ⟨repeatedBytes, length_repeatedBytes⟩

theorem chunking_round_trip_repeated :
    ∃ manifest chunks, chunkContent longDigests repeatedContent.1 3 = some (manifest, chunks) ∧
      verifyManifest longDigests manifest = true ∧
      reassemble longDigests manifest (lookup chunks) = some repeatedContent.1 ∧
      decodeManifest longDigests (encodeManifest manifest) = .ok (some manifest) := by
  obtain ⟨manifest, chunks, hchunked, -, hverify, hreassemble, hdecode⟩ :=
    chunking_round_trip longDigests length_longDigests repeatedContent 3 (by decide)
  have hfree : DistinctDigests longDigests chunks := by
    rw [chunks_of_chunkContent hchunked]
    unfold DistinctDigests
    decide +kernel
  exact ⟨manifest, chunks, hchunked, hverify, hreassemble hfree _ (looksUp_lookup chunks),
    hdecode.mpr (by decide)⟩

/-- Empty content in chunks of `2 ^ 53` bytes has a manifest that is not decoded. -/
theorem unsafe_chunkSize_lost :
    ¬∀ (content : Content) (chunkSize : Nat), 1 ≤ chunkSize →
      ∃ manifest chunks, chunkContent longDigests content.1 chunkSize = some (manifest, chunks) ∧
        decodeManifest longDigests (encodeManifest manifest) = .ok (some manifest) := by
  intro hround
  have hsafe : ∀ chunkSize, 1 ≤ chunkSize →
      (∃ manifest chunks, chunkContent longDigests [] chunkSize = some (manifest, chunks) ∧
        decodeManifest longDigests (encodeManifest manifest) = .ok (some manifest)) →
      chunkSize ≤ MAX_SAFE_INTEGER := by
    rintro chunkSize hpos ⟨manifest, chunks, hchunked, hdecode⟩
    obtain ⟨n, hcovers⟩ := exists_covers ([] : Bytes).length hpos
    rw [chunkContent_eq hpos hcovers] at hchunked
    cases hchunked
    exact (decodeManifest_encodeManifest_iff (fun i _ => length_longDigests _) (Nat.zero_le _)
      hpos hcovers).mp hdecode
  exact absurd (hsafe _ (by decide) (hround ⟨[], by decide⟩ (2 ^ 53) (by decide))) (by decide)

end NeuronWeb
