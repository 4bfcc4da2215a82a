/-
  Consensus/Vrf: ECVRF-P256-SHA256-TAI (`engine/consensus/vrf.ts`).

  The curve is a group of prime order with its compressed encoding, SHA-256 and HMAC are
  functions of bytes. What throws is `none`: a scalar that `multiply` does not take, the
  encoding of the point at infinity, a hash that hits no point in 256 tries.
-/
import NeuronWeb.Core.Hash
import NeuronWeb.Foundation.PrimeGroup
import Mathlib.Data.ZMod.Basic

set_option autoImplicit false

namespace NeuronWeb.Vrf

/-! ## Bytes and scalars -/

/-- Compressed point length (`point_to_string`). -/
def PTLEN : Nat := 33

/-- Challenge length (half the field). -/
def CLEN : Nat := 16

/-- Scalar length in octets. -/
def QLEN : Nat := 32

def SUITE : UInt8 := 0x01

/-- `bytesToBigInt`. -/
def bytesToBigInt (b : Bytes) : Nat := b.foldl (fun x byte => x * 256 + byte.toNat) 0

/-- `bigIntToBytes`: the low byte stands last. -/
def bigIntToBytes (x : Nat) : Nat → Bytes
  | 0 => []
  | len + 1 => bigIntToBytes (x / 256) len ++ [UInt8.ofNat (x % 256)]

theorem length_bigIntToBytes (x len : Nat) : (bigIntToBytes x len).length = len := by
  induction len generalizing x with
  | zero => rfl
  | succ len ih => rw [bigIntToBytes, List.length_append, ih, List.length_singleton]

theorem bytesToBigInt_concat (b : Bytes) (byte : UInt8) :
    bytesToBigInt (b ++ [byte]) = bytesToBigInt b * 256 + byte.toNat := by
  rw [bytesToBigInt, List.foldl_append, List.foldl_cons, List.foldl_nil, bytesToBigInt]

theorem bytesToBigInt_bigIntToBytes {x len : Nat} (h : x < 256 ^ len) :
    bytesToBigInt (bigIntToBytes x len) = x := by
  induction len generalizing x with
  | zero =>
    have hzero : x = 0 := by omega
    rw [hzero]
    rfl
  | succ len ih =>
    have hhigh : x / 256 < 256 ^ len := by
      rw [Nat.div_lt_iff_lt_mul (by omega), ← pow_succ]
      exact h
    have hlow : (UInt8.ofNat (x % 256)).toNat = x % 256 :=
      UInt8.toNat_ofNat_of_lt' (Nat.mod_lt _ (by omega))
    rw [bigIntToBytes, bytesToBigInt_concat, ih hhigh, hlow, Nat.mul_comm, Nat.div_add_mod]

theorem bytesToBigInt_lt (b : Bytes) : bytesToBigInt b < 256 ^ b.length := by
  induction b using List.reverseRecOn with
  | nil => exact Nat.one_pos
  | append_singleton b byte ih =>
    have hbyte : byte.toNat < 256 := byte.toNat_lt
    rw [bytesToBigInt_concat, List.length_append, List.length_singleton, pow_succ]
    omega

/-! ## The curve and the hashes -/

/-- What the source takes from `@noble/curves`: the group, its generator and its encoding. -/
structure Curve (G : Type) where
  /-- The group order `N`. -/
  N : Nat
  BASE : G
  /-- `p.toBytes(true)`; `none` when it throws. -/
  pointToBytes : G → Option Bytes
  /-- `Point.fromHex(bytesToHex(b))`; `none` when it throws. -/
  bytesToPoint : Bytes → Option G

/-- What it takes from `@noble/hashes`. -/
structure Hashes where
  sha256 : Bytes → Bytes
  /-- `hmac(sha256, key, message)`. -/
  hmac : Bytes → Bytes → Bytes

/-- A group of prime order whose points other than infinity have an encoding of 33 bytes that
is read back. -/
structure Curve.Lawful {G : Type} [AddCommGroup G] (C : Curve G) : Prop where
  card : Nat.card G = C.N
  prime : C.N.Prime
  order_lt : C.N < 2 ^ 256
  base_ne : C.BASE ≠ 0
  pointToBytes_some : ∀ p : G, p ≠ 0 → ∃ b, C.pointToBytes p = some b ∧ b.length = PTLEN ∧
    C.bytesToPoint b = some p

section Model

variable {G : Type} [AddCommGroup G] [DecidableEq G] (C : Curve G) (S : Hashes)

/-- `p.multiply(k)`, which throws unless `1 ≤ k < N`. -/
def multiply (p : G) (k : Nat) : Option G := if 1 ≤ k ∧ k < C.N then some (k • p) else none

/-- `mul(p, scalar)`: the identity for a zero scalar, which `multiply` would reject. -/
def mul (p : G) (scalar : Nat) : G :=
  let k := scalar % C.N
  if k = 0 then 0 else k • p

/-- One turn of `encodeToCurveTAI`: hash with the counter, prepend the even-y prefix and decode;
the identity does not count. -/
def tryIncrement (pkBytes alpha : Bytes) (ctr : Nat) : Option G :=
  let hashStr := S.sha256 ([SUITE, 0x01] ++ pkBytes ++ alpha ++ [UInt8.ofNat ctr] ++ [0x00])
  match C.bytesToPoint (0x02 :: hashStr) with
  | some h => if h = 0 then none else some h
  | none => none

/-- `encodeToCurveTAI(pkBytes, alpha)`: the first counter up to 255 that hits a point. -/
def encodeToCurveTAI (pkBytes alpha : Bytes) : Option G :=
  (List.range 256).findSome? (tryIncrement C S pkBytes alpha)

/-- `bits2octets(b)`. -/
def bits2octets (b : Bytes) : Bytes := bigIntToBytes (bytesToBigInt b % C.N) QLEN

/-- The loop of `nonceRFC6979`. -/
def nonceLoop : Nat → Bytes → Bytes → Option Nat
  | 0, _, _ => none
  | fuel + 1, K, V =>
    let V := S.hmac K V
    let k := bytesToBigInt V
    if 1 ≤ k ∧ k < C.N then some k
    else
      let K := S.hmac K (V ++ [0x00])
      nonceLoop fuel K (S.hmac K V)

/-- `nonceRFC6979(x, hString)`. -/
def nonceRFC6979 (fuel x : Nat) (hString : Bytes) : Option Nat :=
  let h1 := S.sha256 hString
  let xOct := bigIntToBytes x QLEN
  let hOct := bits2octets C h1
  let V := List.replicate 32 0x01
  let K := List.replicate 32 0x00
  let K := S.hmac K (V ++ [0x00] ++ xOct ++ hOct)
  let V := S.hmac K V
  let K := S.hmac K (V ++ [0x01] ++ xOct ++ hOct)
  let V := S.hmac K V
  nonceLoop C S fuel K V

/-- `challengeGeneration(points)`. -/
def challengeGeneration (points : List G) : Option Nat := do
  let parts ← points.mapM C.pointToBytes
  let cString := S.sha256 ([SUITE, 0x02] ++ parts.flatten ++ [0x00])
  return bytesToBigInt (cString.take CLEN)

/-- `proofToHash(gamma)`. -/
def proofToHash (gamma : G) : Option Bytes := do
  let bytes ← C.pointToBytes gamma
  return S.sha256 ([SUITE, 0x03] ++ bytes ++ [0x00])

/-! ## Prover -/

structure VrfProof where
  pi : Hex
  beta : Hex
deriving DecidableEq

/-- The encoded public key of the secret scalar `x`. -/
def publicKey (x : Nat) : Option Bytes := do
  let Y ← multiply C C.BASE x
  C.pointToBytes Y

/-- `vrfProve(privHex, alpha)`. -/
def vrfProve (fuel : Nat) (privHex : Hex) (alpha : Bytes) : Option VrfProof := do
  let secret ← hexToBytes privHex
  let x := bytesToBigInt secret % C.N
  let Y ← multiply C C.BASE x
  let pkBytes ← C.pointToBytes Y
  let H ← encodeToCurveTAI C S pkBytes alpha
  let hBytes ← C.pointToBytes H
  let gamma ← multiply C H x
  let k ← nonceRFC6979 C S fuel x hBytes
  let kB ← multiply C C.BASE k
  let kH ← multiply C H k
  let c ← challengeGeneration C S [Y, H, gamma, kB, kH]
  let s := (k + c * x) % C.N
  let gammaBytes ← C.pointToBytes gamma
  let beta ← proofToHash C S gamma
  return ⟨bytesToHex (gammaBytes ++ bigIntToBytes c CLEN ++ bigIntToBytes s QLEN),
    bytesToHex beta⟩

/-! ## Verifier -/

structure DecodedProof (G : Type) where
  gamma : G
  c : Nat
  s : Nat

/-- `decodeProof(pi)`; `none` is its `null`. -/
def decodeProof (pi : Bytes) : Option (DecodedProof G) :=
  if pi.length ≠ PTLEN + CLEN + QLEN then none
  else
    match C.bytesToPoint (pi.take PTLEN) with
    | none => none
    | some gamma =>
      let c := bytesToBigInt ((pi.drop PTLEN).take CLEN)
      let s := bytesToBigInt (pi.drop (PTLEN + CLEN))
      if C.N ≤ s then none else some ⟨gamma, c, s⟩

/-- `vrfVerify(pubHex, alpha, piHex)`: beta, or `some none` for its `null`. -/
def vrfVerify (pubHex : Hex) (alpha : Bytes) (piHex : Hex) : Option (Option Hex) :=
  match (hexToBytes pubHex).bind C.bytesToPoint with
  | none => some none
  | some Y =>
    if Y = 0 then some none
    else
      match (hexToBytes piHex).bind (decodeProof C) with
      | none => some none
      | some dec => do
        let pkBytes ← C.pointToBytes Y
        let H ← encodeToCurveTAI C S pkBytes alpha
        let U := mul C C.BASE dec.s + -mul C Y dec.c
        let V := mul C H dec.s + -mul C dec.gamma dec.c
        let cPrime ← challengeGeneration C S [Y, H, dec.gamma, U, V]
        if cPrime ≠ dec.c then return none
        else
          let beta ← proofToHash C S dec.gamma
          return some (bytesToHex beta)

/-- `vrfProofToHash(piHex)`: beta without verification, or `some none` for its `null`. -/
def vrfProofToHash (piHex : Hex) : Option (Option Hex) :=
  match (hexToBytes piHex).bind (decodeProof C) with
  | none => some none
  | some dec => do
    let beta ← proofToHash C S dec.gamma
    return some (bytesToHex beta)

end Model

/-! ## What is written is read back -/

variable {G : Type} [AddCommGroup G] {C : Curve G} {S : Hashes}

theorem multiply_of_lt {k : Nat} (hk : 1 ≤ k ∧ k < C.N) (p : G) :
    multiply C p k = some (k • p) := if_pos hk

theorem multiply_some {p q : G} {k : Nat} (h : multiply C p k = some q) :
    (1 ≤ k ∧ k < C.N) ∧ q = k • p := by
  obtain ⟨hk, hq⟩ := Option.ite_none_right_eq_some.mp h
  exact ⟨hk, (Option.some.inj hq).symm⟩

theorem mul_eq_nsmul (hC : C.Lawful) (p : G) (scalar : Nat) : mul C p scalar = scalar • p := by
  unfold mul
  simp only
  split
  case isTrue hzero => rw [← PrimeGroup.nsmul_mod hC.card, hzero, zero_nsmul]
  case isFalse => exact PrimeGroup.nsmul_mod hC.card scalar p

section

omit [AddCommGroup G]

theorem decodeProof_encoded {gamma : G} {bytes : Bytes} (hlength : bytes.length = PTLEN)
    (hpoint : C.bytesToPoint bytes = some gamma) {c s : Nat} (hc : c < 256 ^ CLEN) (hs : s < C.N)
    (hN : C.N < 2 ^ 256) :
    decodeProof C (bytes ++ bigIntToBytes c CLEN ++ bigIntToBytes s QLEN) = some ⟨gamma, c, s⟩ := by
  have hwidth : s < 256 ^ QLEN := by
    have hpow : 256 ^ QLEN = 2 ^ 256 := by decide
    omega
  have htotal : (bytes ++ bigIntToBytes c CLEN ++ bigIntToBytes s QLEN).length =
      PTLEN + CLEN + QLEN := by
    rw [List.length_append, List.length_append, hlength, length_bigIntToBytes,
      length_bigIntToBytes]
  have hhead : (bytes ++ bigIntToBytes c CLEN ++ bigIntToBytes s QLEN).take PTLEN = bytes := by
    rw [List.append_assoc, ← hlength, List.take_left]
  have htail : (bytes ++ bigIntToBytes c CLEN ++ bigIntToBytes s QLEN).drop PTLEN =
      bigIntToBytes c CLEN ++ bigIntToBytes s QLEN := by
    rw [List.append_assoc, ← hlength, List.drop_left]
  have hlast : (bytes ++ bigIntToBytes c CLEN ++ bigIntToBytes s QLEN).drop (PTLEN + CLEN) =
      bigIntToBytes s QLEN := by
    rw [← List.drop_drop, htail]
    nth_rewrite 1 [← length_bigIntToBytes c CLEN]
    rw [List.drop_left]
  have hmiddle : (bigIntToBytes c CLEN ++ bigIntToBytes s QLEN).take CLEN =
      bigIntToBytes c CLEN := by
    nth_rewrite 1 [← length_bigIntToBytes c CLEN]
    rw [List.take_left]
  rw [decodeProof, if_neg (not_not.mpr htotal), hhead, hpoint, htail, hmiddle, hlast]
  simp only
  rw [bytesToBigInt_bigIntToBytes hc, bytesToBigInt_bigIntToBytes hwidth,
    if_neg (Nat.not_le.mpr hs)]

theorem challengeGeneration_lt {points : List G} {c : Nat}
    (h : challengeGeneration C S points = some c) : c < 256 ^ CLEN := by
  obtain ⟨parts, _, hc⟩ := Option.bind_eq_some_iff.mp h
  rw [← Option.some.inj hc]
  refine Nat.lt_of_lt_of_le (bytesToBigInt_lt _) (Nat.pow_le_pow_right (by omega) ?_)
  exact List.length_take_le _ _

theorem nonceLoop_range {fuel k : Nat} {K V : Bytes} (h : nonceLoop C S fuel K V = some k) :
    1 ≤ k ∧ k < C.N := by
  induction fuel generalizing K V with
  | zero => cases h
  | succ fuel ih =>
    rw [nonceLoop] at h
    simp only at h
    split at h
    case isTrue hrange =>
      rw [← Option.some.inj h]
      exact hrange
    case isFalse => exact ih h

theorem nonceRFC6979_range {fuel x k : Nat} {hString : Bytes}
    (h : nonceRFC6979 C S fuel x hString = some k) : 1 ≤ k ∧ k < C.N := nonceLoop_range h

end

theorem encodeToCurveTAI_ne_zero [DecidableEq G] {pkBytes alpha : Bytes} {H : G}
    (h : encodeToCurveTAI C S pkBytes alpha = some H) : H ≠ 0 := by
  obtain ⟨ctr, _, hturn⟩ := List.exists_of_findSome?_eq_some h
  rw [tryIncrement] at hturn
  split at hturn
  case h_1 point _ =>
    split at hturn
    case isTrue => cases hturn
    case isFalse hne => exact Option.some.inj hturn ▸ hne
  case h_2 => cases hturn

/-! ## Completeness -/

theorem Curve.Lawful.nsmul_ne_zero (hC : C.Lawful) {k : Nat} (hk : 1 ≤ k ∧ k < C.N) {p : G}
    (hp : p ≠ 0) : k • p ≠ 0 :=
  PrimeGroup.nsmul_ne_zero hC.card hC.prime hk hp

theorem challengeGeneration_isSome (hC : C.Lawful) {points : List G}
    (h : ∀ p ∈ points, p ≠ 0) : ∃ c, challengeGeneration C S points = some c := by
  have hparts : ∃ parts, points.mapM C.pointToBytes = some parts := by
    induction points with
    | nil => exact ⟨[], rfl⟩
    | cons p points ih =>
      obtain ⟨b, hb, -⟩ := hC.pointToBytes_some p (h p List.mem_cons_self)
      obtain ⟨parts, hparts⟩ := ih fun q hq => h q (List.mem_cons_of_mem p hq)
      exact ⟨b :: parts, by rw [List.mapM_cons, hb, hparts]; rfl⟩
  obtain ⟨parts, hparts⟩ := hparts
  exact ⟨_, by rw [challengeGeneration, hparts]; rfl⟩

section Completeness

variable [DecidableEq G] (hC : C.Lawful) {privHex : Hex} {secret : Bytes}
  (hpriv : hexToBytes privHex = some secret) {x : Nat} (hsecret : bytesToBigInt secret % C.N = x)
  (hx : 1 ≤ x ∧ x < C.N) {pkBytes alpha hBytes gammaBytes : Bytes} {H : G}
  (hpk : C.pointToBytes (x • C.BASE) = some pkBytes)
  (hH : encodeToCurveTAI C S pkBytes alpha = some H)
  (hhBytes : C.pointToBytes H = some hBytes)
  (hgamma : C.pointToBytes (x • H) = some gammaBytes)

include hpriv hsecret hx hpk hH hhBytes hgamma in
theorem vrfProve_eq (fuel : Nat) : vrfProve C S fuel privHex alpha =
    (nonceRFC6979 C S fuel x hBytes).bind fun k =>
      (multiply C C.BASE k).bind fun kB =>
        (multiply C H k).bind fun kH =>
          (challengeGeneration C S [x • C.BASE, H, x • H, kB, kH]).bind fun c =>
            some ⟨bytesToHex (gammaBytes ++ bigIntToBytes c CLEN ++
                bigIntToBytes ((k + c * x) % C.N) QLEN),
              bytesToHex (S.sha256 ([SUITE, 0x03] ++ gammaBytes ++ [0x00]))⟩ := by
  unfold vrfProve proofToHash
  rw [hpriv]
  simp only [Option.bind_eq_bind, Option.bind_some, hsecret, multiply_of_lt hx, hpk, hH, hhBytes,
    hgamma]
  rfl

include hC hpk hH hgamma in
theorem vrfVerify_eq (hx : 1 ≤ x ∧ x < C.N) {k c : Nat}
    (hc : challengeGeneration C S [x • C.BASE, H, x • H, k • C.BASE, k • H] = some c) :
    let pi := bytesToHex (gammaBytes ++ bigIntToBytes c CLEN ++
      bigIntToBytes ((k + c * x) % C.N) QLEN)
    let beta := bytesToHex (S.sha256 ([SUITE, 0x03] ++ gammaBytes ++ [0x00]))
    vrfVerify C S (bytesToHex pkBytes) alpha pi = some (some beta) ∧
      vrfProofToHash C S pi = some (some beta) := by
  have hY : x • C.BASE ≠ 0 := hC.nsmul_ne_zero hx hC.base_ne
  have hgammaNe : x • H ≠ 0 := hC.nsmul_ne_zero hx (encodeToCurveTAI_ne_zero hH)
  obtain ⟨b, hb, -, hpoint⟩ := hC.pointToBytes_some _ hY
  obtain rfl : b = pkBytes := Option.some.inj (hb.symm.trans hpk)
  obtain ⟨b', hb', hlength, hpoint'⟩ := hC.pointToBytes_some _ hgammaNe
  obtain rfl : b' = gammaBytes := Option.some.inj (hb'.symm.trans hgamma)
  have hdecoded := decodeProof_encoded (C := C) hlength hpoint' (challengeGeneration_lt hc)
    (Nat.mod_lt (k + c * x) hC.prime.pos) hC.order_lt
  have hU : mul C C.BASE ((k + c * x) % C.N) + -mul C (x • C.BASE) c = k • C.BASE := by
    rw [mul_eq_nsmul hC, mul_eq_nsmul hC, PrimeGroup.response_sub_challenge hC.card]
  have hV : mul C H ((k + c * x) % C.N) + -mul C (x • H) c = k • H := by
    rw [mul_eq_nsmul hC, mul_eq_nsmul hC, PrimeGroup.response_sub_challenge hC.card]
  constructor
  · unfold vrfVerify proofToHash
    rw [hexToBytes_bytesToHex, Option.bind_some, hpoint]
    simp only
    rw [if_neg hY, hexToBytes_bytesToHex, Option.bind_some, hdecoded]
    simp only [Option.bind_eq_bind, hpk, Option.bind_some, hH, hU, hV, hc, ne_eq,
      not_true_eq_false, if_false, hgamma]
    rfl
  · unfold vrfProofToHash proofToHash
    rw [hexToBytes_bytesToHex, Option.bind_some, hdecoded]
    simp only [Option.bind_eq_bind, hgamma, Option.bind_some]
    rfl

end Completeness

/-- For every secret that is not 0 modulo the group order and every input that is hashed to a
point: `vrfProve` returns as soon as the nonce loop does, and whatever it returns, `vrfVerify`
under the public key and `vrfProofToHash` give back exactly its beta. -/
theorem vrf_complete [DecidableEq G] (hC : C.Lawful) (S : Hashes) {privHex : Hex}
    {secret : Bytes} (hpriv : hexToBytes privHex = some secret)
    (hx : bytesToBigInt secret % C.N ≠ 0) :
    ∃ pkBytes, publicKey C (bytesToBigInt secret % C.N) = some pkBytes ∧
      ∀ alpha H, encodeToCurveTAI C S pkBytes alpha = some H →
        (∀ fuel hBytes, C.pointToBytes H = some hBytes →
          (nonceRFC6979 C S fuel (bytesToBigInt secret % C.N) hBytes).isSome →
          ∃ proof, vrfProve C S fuel privHex alpha = some proof) ∧
        ∀ fuel proof, vrfProve C S fuel privHex alpha = some proof →
          vrfVerify C S (bytesToHex pkBytes) alpha proof.pi = some (some proof.beta) ∧
            vrfProofToHash C S proof.pi = some (some proof.beta) := by
  generalize hsecret : bytesToBigInt secret % C.N = x at hx ⊢
  have hrange : 1 ≤ x ∧ x < C.N :=
    ⟨Nat.one_le_iff_ne_zero.mpr hx, hsecret ▸ Nat.mod_lt _ hC.prime.pos⟩
  obtain ⟨pkBytes, hpk, -⟩ := hC.pointToBytes_some _ (hC.nsmul_ne_zero hrange hC.base_ne)
  refine ⟨pkBytes, ?_, fun alpha H hH => ?_⟩
  · rw [publicKey, multiply_of_lt hrange]
    exact hpk
  have hHne := encodeToCurveTAI_ne_zero hH
  obtain ⟨hBytes, hhBytes, -⟩ := hC.pointToBytes_some _ hHne
  obtain ⟨gammaBytes, hgamma, -⟩ := hC.pointToBytes_some _ (hC.nsmul_ne_zero hrange hHne)
  have hprove := vrfProve_eq hpriv hsecret hrange hpk hH hhBytes hgamma
  constructor
  · intro fuel b hb hnonce
    obtain rfl : hBytes = b := Option.some.inj (hhBytes.symm.trans hb)
    obtain ⟨k, hk⟩ := Option.isSome_iff_exists.mp hnonce
    have hkrange := nonceRFC6979_range hk
    obtain ⟨c, hc⟩ : ∃ c, challengeGeneration C S
        [x • C.BASE, H, x • H, k • C.BASE, k • H] = some c := by
      refine challengeGeneration_isSome hC ?_
      simp only [List.mem_cons, List.not_mem_nil, or_false]
      rintro p (rfl | rfl | rfl | rfl | rfl)
      · exact hC.nsmul_ne_zero hrange hC.base_ne
      · exact hHne
      · exact hC.nsmul_ne_zero hrange hHne
      · exact hC.nsmul_ne_zero hkrange hC.base_ne
      · exact hC.nsmul_ne_zero hkrange hHne
    rw [hprove fuel, hk, Option.bind_some, multiply_of_lt hkrange, Option.bind_some,
      multiply_of_lt hkrange, Option.bind_some, hc, Option.bind_some]
    exact ⟨_, rfl⟩
  · intro fuel proof hproof
    rw [hprove fuel] at hproof
    obtain ⟨k, _, hpoints⟩ := Option.bind_eq_some_iff.mp hproof
    obtain ⟨kB, hkB, hrest⟩ := Option.bind_eq_some_iff.mp hpoints
    obtain ⟨kH, hkH, hchallenge⟩ := Option.bind_eq_some_iff.mp hrest
    obtain ⟨c, hc, hpi⟩ := Option.bind_eq_some_iff.mp hchallenge
    obtain ⟨_, rfl⟩ := multiply_some hkB
    obtain ⟨_, rfl⟩ := multiply_some hkH
    rw [← Option.some.inj hpi]
    exact vrfVerify_eq hC hpk hH hgamma hrange hc

/-! ## A small curve -/

namespace Sample

/-- The residues modulo 5, encoded as their value behind 32 zeros; a longer string stands for
the value of its last byte. -/
def five : Curve (ZMod 5) where
  N := 5
  BASE := 1
  pointToBytes p := if p = 0 then none else some (bigIntToBytes p.val 33)
  bytesToPoint b := some (bytesToBigInt b : ZMod 5)

/-- Checksums, the one for SHA-256 in both halves of its output. -/
def sums : Hashes where
  sha256 b :=
    let sum := bytesToBigInt b % 65521
    bigIntToBytes sum 16 ++ bigIntToBytes sum 16
  hmac _ message := bigIntToBytes (bytesToBigInt message % 5) 32

theorem lawful_five : five.Lawful where
  card := Nat.card_zmod 5
  prime := by decide
  order_lt := by decide
  base_ne := by decide
  pointToBytes_some p hp := by
    have hfits : p.val < 256 ^ 33 := Nat.lt_trans (ZMod.val_lt p) (by decide)
    refine ⟨_, if_neg hp, length_bigIntToBytes _ _, ?_⟩
    show some ((bytesToBigInt (bigIntToBytes p.val 33) : Nat) : ZMod 5) = some p
    rw [bytesToBigInt_bigIntToBytes hfits, ZMod.natCast_zmod_val]

end Sample

/-- The secret 3 and an input of two bytes; the response is 0. -/
theorem vrf_complete_five : ∃ proof,
    vrfProve Sample.five Sample.sums 4 (bytesToHex [3]) [1, 2] = some proof ∧
      vrfVerify Sample.five Sample.sums (bytesToHex (bigIntToBytes 3 33)) [1, 2] proof.pi =
        some (some proof.beta) ∧
      vrfProofToHash Sample.five Sample.sums proof.pi = some (some proof.beta) := by
  have hkey : publicKey Sample.five (bytesToBigInt [3] % 5) = some (bigIntToBytes 3 33) := by
    decide +kernel
  have hpoint : encodeToCurveTAI Sample.five Sample.sums (bigIntToBytes 3 33) [1, 2] = some 3 := by
    decide +kernel
  have hnonce : (nonceRFC6979 Sample.five Sample.sums 4 3 (bigIntToBytes 3 33)).isSome = true := by
    decide +kernel
  obtain ⟨pkBytes, hpk, hall⟩ := vrf_complete Sample.lawful_five Sample.sums
    (hexToBytes_bytesToHex [3]) (by decide)
  obtain rfl : pkBytes = bigIntToBytes 3 33 := Option.some.inj (hpk.symm.trans hkey)
  obtain ⟨hreturns, hverify⟩ := hall [1, 2] 3 hpoint
  obtain ⟨proof, hproof⟩ := hreturns 4 (bigIntToBytes 3 33) rfl hnonce
  exact ⟨proof, hproof, hverify 4 proof hproof⟩

end NeuronWeb.Vrf
