import NullaRelay.ScanProof.Relations

/-!
# Points as vectors

Points are vectors over the scalars in the basis `G1`, `G`, `H`. Thirty-two
bytes encode a point with small coordinates, ten bytes for the serial, ten for
the value and twelve for the blinding, so that concrete coins and commitments
can be written down. `vectorConfig` is a configuration of the pallet over these
points, with the verifier of the relations and plain balances.
-/

namespace NullaRelay.ScanProof

open Verifier OneOfMany NullaRelay.Frame LittleEndian

/-- The coordinates of a point along `G1`, `G` and `H`. -/
abbrev Point := Scalar × Scalar × Scalar

/-- The bytes of the point with three small coordinates. -/
def encodePoint (s v r : ℕ) : U8Array 32 :=
  ⟨leBytes 10 s ++ (leBytes 10 v ++ leBytes 12 r), by simp⟩

def decodePoint (bytes : U8Array 32) : Point :=
  (leNat (bytes.toList.take 10), leNat ((bytes.toList.drop 10).take 10),
    leNat (bytes.toList.drop 20))

theorem decodePoint_encodePoint {s v r : ℕ} (hs : s < 256 ^ 10) (hv : v < 256 ^ 10)
    (hr : r < 256 ^ 12) :
    decodePoint (encodePoint s v r) = ((s : Scalar), (v : Scalar), (r : Scalar)) := by
  have hdrop : List.drop 20 (leBytes 10 s ++ (leBytes 10 v ++ leBytes 12 r)) = leBytes 12 r := by
    rw [← List.append_assoc]
    exact List.drop_left' (by simp)
  have htake : ((leBytes 10 s ++ (leBytes 10 v ++ leBytes 12 r)).drop 10).take 10 =
      leBytes 10 v := by
    rw [List.drop_left' (by simp)]
    exact List.take_left' (by simp)
  have hhead : (leBytes 10 s ++ (leBytes 10 v ++ leBytes 12 r)).take 10 = leBytes 10 s :=
    List.take_left' (by simp)
  simp only [decodePoint, encodePoint, List.Vector.toList]
  rw [hdrop, htake, hhead, leNat_leBytes_of_lt hs, leNat_leBytes_of_lt hv,
    leNat_leBytes_of_lt hr]

@[simp] theorem decodePoint_zero : decodePoint (U8Array.zero 32) = 0 := by
  simp only [decodePoint, U8Array.zero, List.Vector.toList]
  rfl

/-- The primitives over vectors: hashing to a point gives the generator that the
label asks for. -/
def vectorPrimitives : Primitives Point where
  basepoint := (0, 1, 0)
  decompress bytes := some (decodePoint bytes)
  compress p := encodePoint p.1.val p.2.1.val p.2.2.val
  fromUniformBytes u :=
    if u = U8Array.padded 64 (byteString "NULLA_SERIAL_GENERATOR") then (1, 0, 0) else (0, 0, 1)
  sha512 := U8Array.padded 64
  blake2b512 := U8Array.padded 64
  challengeBytes _ _ := U8Array.zero 64
  verifyMultiple _ _ _ _ _ _ _ := false

@[simp] theorem vector_basepoint : vectorPrimitives.basepoint = (0, 1, 0) := rfl

@[simp] theorem vector_decompress (b : U8Array 32) :
    vectorPrimitives.decompress b = some (decodePoint b) := rfl

@[simp] theorem vector_generatorG1 : generatorG1 vectorPrimitives = (1, 0, 0) := by
  simp [generatorG1, vectorPrimitives]

@[simp] theorem vector_generatorH : generatorH vectorPrimitives = (0, 0, 1) := by
  have hne : U8Array.padded 64 (byteString "VERIFIER_H_GENERATOR") ≠
      U8Array.padded 64 (byteString "NULLA_SERIAL_GENERATOR") := by decide
  simp [generatorH, vectorPrimitives, hne]

theorem vector_independent : LinearIndependent Scalar
    ![generatorG1 vectorPrimitives, vectorPrimitives.basepoint, generatorH vectorPrimitives] := by
  rw [Fintype.linearIndependent_iff]
  intro g hg i
  simp only [Fin.sum_univ_three, Matrix.cons_val_zero, Matrix.cons_val_one, Matrix.cons_val,
    vector_generatorG1, vector_basepoint, vector_generatorH, Prod.smul_mk, smul_eq_mul, mul_one,
    mul_zero, Prod.mk_add_mk, add_zero, zero_add, Prod.mk_eq_zero] at hg
  fin_cases i
  · exact hg.1
  · exact hg.2.1
  · exact hg.2.2

theorem vector_independent_pair : LinearIndependent Scalar
    ![vectorPrimitives.basepoint, generatorH vectorPrimitives] := by
  rw [LinearIndependent.pair_iff]
  intro a b hab
  simpa [Prod.ext_iff] using hab

/-- A configuration over vectors, with 32-byte accounts and plain balances. -/
noncomputable def vectorConfig : Config (U8Array 32) (U8Array 32 → ℕ) where
  proofVerifier := relationVerifier vectorPrimitives
  currency := balances
  maxProofSize := 65536
  maxRangeProofSize := 16384
  maxOutputs := 2
  poolAccount := U8Array.ofNat 32 1
  encodeAccount := List.Vector.toList
  decodeAccount bytes := copyFromSlice 32 (bytes.take 32)
  blake2_256 := U8Array.padded 32
  usizeBits := 32
  usizeBits_ge := le_rfl
  maxRangeProofSize_lt := by norm_num

@[simp] theorem vectorConfig_proofVerifier :
    vectorConfig.proofVerifier = relationVerifier vectorPrimitives := rfl

/-- A configuration with another hash. -/
def Config.withHash {A L : Type} (T : Config A L) (blake2_256 : List UInt8 → U8Array 32) :
    Config A L :=
  { T with blake2_256 }

/-- A configuration with another verifier. -/
def Config.withVerifier {A L : Type} (T : Config A L) (proofVerifier : ProofVerify) :
    Config A L :=
  { T with proofVerifier }

end NullaRelay.ScanProof
