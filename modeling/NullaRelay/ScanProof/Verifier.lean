import NullaRelay.ScanProof.Wire
import NullaRelay.Field.Scalar

/-!
# The Pedersen verifier of ScanProof

The verifier functions for the note lane: balance proofs, range proofs,
commitment openings and homomorphic subtraction. The curve, hash, transcript
and range-proof libraries are collected in `Primitives`, a structure of
functions over the type `V` of points; what a group of results needs of them
is a hypothesis there.
-/

namespace NullaRelay.ScanProof.Verifier

open LittleEndian

/-- A merlin transcript: its protocol label and the messages appended so far. -/
structure Transcript where
  label : String
  messages : List (String × List UInt8)
  deriving DecidableEq

namespace Transcript

def new (label : String) : Transcript := ⟨label, []⟩

def appendMessage (t : Transcript) (label : String) (message : List UInt8) : Transcript :=
  { t with messages := t.messages ++ [(label, message)] }

def appendU64 (t : Transcript) (label : String) (x : UInt64) : Transcript :=
  t.appendMessage label (Scale.encodeU64 x)

end Transcript

/-- The functions the verifier takes from other crates. -/
structure Primitives (V : Type) where
  /-- `RISTRETTO_BASEPOINT_POINT`, the value generator `G`. -/
  basepoint : V
  decompress : U8Array 32 → Option V
  compress : V → U8Array 32
  fromUniformBytes : U8Array 64 → V
  sha512 : List UInt8 → U8Array 64
  blake2b512 : List UInt8 → U8Array 64
  challengeBytes : Transcript → String → U8Array 64
  /-- `RangeProof::from_bytes` and then `verify_multiple_with_rng`, as a function
  of the proof, the blinding generator, the party capacity, the transcript, the
  commitments, the bit width and the seed of the generator. -/
  verifyMultiple : List UInt8 → V → ℕ → Transcript → List (U8Array 32) → ℕ → U8Array 32 → Bool

variable {V : Type} [AddCommGroup V] [Module Scalar V] (P : Primitives V)

/-- The blinding generator `H`. -/
def generatorH : V := P.fromUniformBytes (P.sha512 (byteString "VERIFIER_H_GENERATOR"))

def challenge (r agg : V) (piHash : U8Array 32) : Scalar :=
  let t := Transcript.new "NULLA_SCHNORR_BALANCE"
  let t := t.appendMessage "pi_hash" piHash.toList
  let t := t.appendMessage "R" (P.compress r).toList
  let t := t.appendMessage "AGG" (P.compress agg).toList
  Scalar.fromBytesModOrderWide (P.challengeBytes t "c")

/-- The first 32 bytes of BLAKE2b-512. -/
def blake2_256 (data : List UInt8) : U8Array 32 := sliceAt 32 (P.blake2b512 data).toList 0

/-- `verify_bytes`: knowledge of a blinding factor of the sum of the inputs
minus the sum of the outputs. -/
def verifyBytes [DecidableEq V] (proof publicInputs : List UInt8) : Bool :=
  Option.getD (do
    let inputs ← ProofPublicInputs.decode publicInputs
    let piHash := blake2_256 P publicInputs
    guard (proof.length = 64)
    let rPt ← P.decompress (sliceAt 32 proof 0)
    let s := Scalar.fromBytesModOrder (sliceAt 32 proof 32)
    let agg ← inputs.inputCommitments.foldlM
      (fun agg c => do pure (agg + (← P.decompress c))) 0
    let agg ← inputs.newCommitments.foldlM
      (fun agg c => do pure (agg - (← P.decompress c))) agg
    let h := generatorH P
    let c := challenge P rPt agg piHash
    pure (decide (s • h = rPt + c • agg))) false

/-- The commitments that fill a range-proof batch up to the party capacity. -/
def rangePadding (piHash : U8Array 32) (pad : ℕ) : List (U8Array 32) :=
  (List.range pad).map fun i =>
    let w := P.sha512 (byteString "PAD_R" ++ piHash.toList ++ leBytes 4 i)
    P.compress (Scalar.fromBytesModOrderWide w • generatorH P)

def verifyRangeProof (rangeProof : List UInt8) (commitments : List (U8Array 32))
    (publicInputs : List UInt8) (nbits : UInt32) : Bool :=
  if commitments.isEmpty then false
  else if nbits = 0 ∨ nbits > 64 then false
  else
    let m := commitments.length
    let partyCapacity := m.nextPowerOfTwo
    let piHash := blake2_256 P publicInputs
    let t := (Transcript.new "NULLA_BULLETPROOF_RANGE").appendMessage "pi_hash" piHash.toList
    let padded := commitments ++ rangePadding P piHash (partyCapacity - m)
    P.verifyMultiple rangeProof (generatorH P) partyCapacity t padded nbits.toNat piHash

def verifyCommitment [DecidableEq V] (value : UInt64) (blinding commitment : U8Array 32) : Bool :=
  match P.decompress commitment with
  | none => false
  | some cPt =>
      let r := Scalar.fromBytesModOrder blinding
      let v := Scalar.ofU64 value
      decide (v • P.basepoint + r • generatorH P = cPt)

/-- `verify_opening_knowledge`: knowledge of `b` with `C - v·G = b·H`. -/
def verifyOpeningKnowledge [DecidableEq V] (value : UInt64) (commitment : U8Array 32)
    (proof binding : List UInt8) : Bool :=
  Option.getD (do
    guard (proof.length = 64)
    let cPt ← P.decompress commitment
    let h := generatorH P
    let v := Scalar.ofU64 value
    let aPt := cPt - v • P.basepoint
    let rPt ← P.decompress (sliceAt 32 proof 0)
    let s := Scalar.fromBytesModOrder (sliceAt 32 proof 32)
    let t := Transcript.new "NULLA_PEDERSEN_OPENING"
    let t := t.appendMessage "bind" binding
    let t := t.appendMessage "R" (P.compress rPt).toList
    let t := t.appendMessage "A" (P.compress aPt).toList
    let c := Scalar.fromBytesModOrderWide (P.challengeBytes t "c")
    pure (decide (s • h = rPt + c • aPt))) false

/-- `pedersen_subtract`: point subtraction of two decodable commitments. -/
def pedersenSubtract (cA cB : U8Array 32) : Option (U8Array 32) := do
  let pa ← P.decompress cA
  let pb ← P.decompress cB
  pure (P.compress (pa - pb))

/-- A verifier that answers false for want of a value accepts when the value is true. -/
theorem getD_false_eq_true {o : Option Bool} : o.getD false = true ↔ o = some true := by
  cases o <;> simp

end NullaRelay.ScanProof.Verifier
