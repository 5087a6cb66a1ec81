import NullaRelay.ScanProof.Pallet

/-!
# What the ScanProof verifiers prove

The relation behind each verifier, as a statement about points, and the verifier
that accepts exactly the statements of these relations. The results about runs
of the pallet assume only that an accepted proof has its relation; the verifier
of the relations is one such verifier.
-/

namespace NullaRelay.ScanProof

open Verifier OneOfMany NullaRelay.Frame

variable {V : Type} [AddCommGroup V] [Module Scalar V] (P : Primitives V)

/-- `c` is a commitment `v·G + r·H`. -/
def OpensTo (commitment : U8Array 32) (v : Scalar) : Prop :=
  ∃ c, P.decompress commitment = some c ∧ ∃ r : Scalar, c = v • P.basepoint + r • generatorH P

/-- `coin` is a coin `s·G1 + v·G + r·H` with the serial `s` of the bytes. -/
def SerialOpens (coin serial : U8Array 32) : Prop :=
  ∃ c, P.decompress coin = some c ∧ ∃ v r : Scalar,
    c = Scalar.fromBytesModOrder serial • generatorG1 P + v • P.basepoint + r • generatorH P

/-- Every commitment opens to a value below `2 ^ nbits`. -/
def RangeRelation (commitments : List (U8Array 32)) (nbits : UInt32) : Prop :=
  ∀ c ∈ commitments, ∃ v : ℕ, v < 2 ^ nbits.toNat ∧ OpensTo P c v

/-- The inputs less the outputs are a multiple of `H`. -/
def BalanceRelation (inputs : ProofPublicInputs) : Prop :=
  ∃ ins outs, inputs.inputCommitments.mapM P.decompress = some ins ∧
    inputs.newCommitments.mapM P.decompress = some outs ∧
    ∃ r : Scalar, ins.sum - outs.sum = r • generatorH P

/-- The coin less its amount has a serial and a blinding part only. -/
def DepositOpenRelation (coin : U8Array 32) (amount : UInt64) : Prop :=
  ∃ c, P.decompress coin = some c ∧ ∃ s r : Scalar,
    c - Scalar.ofU64 amount • P.basepoint = s • generatorG1 P + r • generatorH P

/-- The coin of `SpendsCoin` is opened by the serial when there is no change. -/
theorem serialOpens_of_spendsCoin {P : Primitives V} {coin serial change : U8Array 32}
    {price : UInt64} (hchange : P.decompress change = some 0)
    (h : SpendsCoin P coin serial price change) : SerialOpens P coin serial := by
  obtain ⟨c, ch, hc, hch, r, hr⟩ := h
  obtain rfl : 0 = ch := Option.some_injective _ (hchange.symm.trans hch)
  refine ⟨c, hc, Scalar.ofU64 price, r, ?_⟩
  rw [← hr, spendOffset, add_zero]
  abel

/-- Over independent generators the serial scalar of a coin is unique. -/
theorem SerialOpens.scalar_eq {P : Primitives V}
    (hind : LinearIndependent Scalar ![generatorG1 P, P.basepoint, generatorH P])
    {coin serial serial' : U8Array 32} (h : SerialOpens P coin serial)
    (h' : SerialOpens P coin serial') :
    Scalar.fromBytesModOrder serial = Scalar.fromBytesModOrder serial' := by
  obtain ⟨c, hc, v, r, hopen⟩ := h
  obtain ⟨c', hc', v', r', hopen'⟩ := h'
  obtain rfl : c = c' := Option.some_injective _ (hc.symm.trans hc')
  have hzero : (Scalar.fromBytesModOrder serial - Scalar.fromBytesModOrder serial') •
      generatorG1 P + (v - v') • P.basepoint + (r - r') • generatorH P = 0 := by
    calc
      _ = (Scalar.fromBytesModOrder serial • generatorG1 P + v • P.basepoint
            + r • generatorH P)
          - (Scalar.fromBytesModOrder serial' • generatorG1 P + v' • P.basepoint
            + r' • generatorH P) := by module
      _ = 0 := by rw [← hopen, ← hopen', sub_self]
  exact sub_eq_zero.1 (Extraction.triple_eq_zero hind hzero).1

/-- Over independent generators the value of a commitment is unique. -/
theorem OpensTo.value_eq {P : Primitives V}
    (hind : LinearIndependent Scalar ![P.basepoint, generatorH P])
    {c : U8Array 32} {v v' : Scalar} (h : OpensTo P c v) (h' : OpensTo P c v') : v = v' := by
  obtain ⟨p, hp, r, hopen⟩ := h
  obtain ⟨p', hp', r', hopen'⟩ := h'
  obtain rfl : p = p' := Option.some_injective _ (hp.symm.trans hp')
  exact (Extraction.pair_ext hind (hopen.symm.trans hopen')).1

open Classical in
/-- The verifier that accepts exactly the statements of the relations. -/
noncomputable def relationVerifier : ProofVerify where
  verify _ publicInputs :=
    decide (∃ inputs, ProofPublicInputs.decode publicInputs = some inputs ∧
      BalanceRelation P inputs)
  verifyCommitment value blinding commitment :=
    decide (P.decompress commitment = some (Scalar.ofU64 value • P.basepoint
      + Scalar.fromBytesModOrder blinding • generatorH P))
  verifyOpeningKnowledge value commitment proof _ :=
    decide (proof.length = 64 ∧ OpensTo P commitment (Scalar.ofU64 value))
  verifyRangeProof _ commitments _ nbits :=
    decide (commitments ≠ [] ∧ RangeRelation P commitments nbits)
  pedersenSubtract := pedersenSubtract P
  verifyOneOfMany _ coins serial price change _ :=
    decide (∃ coin ∈ coins, SpendsCoin P coin serial price change)
  verifyDepositOpen coin amount _ _ := decide (DepositOpenRelation P coin amount)
  verifyG1Pok newCoin change _ _ := decide (G1PokRelation P newCoin change)
  padGroup := padGroup P

@[simp] theorem relationVerifier_verifyOneOfMany {proof : List UInt8}
    {coins : List (U8Array 32)} {serial : U8Array 32} {price : UInt64} {change : U8Array 32}
    {ctx : List UInt8} :
    (relationVerifier P).verifyOneOfMany proof coins serial price change ctx = true ↔
      ∃ coin ∈ coins, SpendsCoin P coin serial price change := by
  simp [relationVerifier]

@[simp] theorem relationVerifier_verifyDepositOpen {coin : U8Array 32} {amount : UInt64}
    {proof ctx : List UInt8} :
    (relationVerifier P).verifyDepositOpen coin amount proof ctx = true ↔
      DepositOpenRelation P coin amount := by
  simp [relationVerifier]

@[simp] theorem relationVerifier_verifyOpeningKnowledge {value : UInt64}
    {commitment : U8Array 32} {proof binding : List UInt8} :
    (relationVerifier P).verifyOpeningKnowledge value commitment proof binding = true ↔
      proof.length = 64 ∧ OpensTo P commitment (Scalar.ofU64 value) := by
  simp [relationVerifier]

@[simp] theorem relationVerifier_verifyRangeProof {proof : List UInt8}
    {commitments : List (U8Array 32)} {publicInputs : List UInt8} {nbits : UInt32} :
    (relationVerifier P).verifyRangeProof proof commitments publicInputs nbits = true ↔
      commitments ≠ [] ∧ RangeRelation P commitments nbits := by
  simp [relationVerifier]

/-- An accepted one-of-many proof names a coin of the group. -/
def OneOfManySound (verifier : ProofVerify) : Prop :=
  ∀ proof coins serial price change ctx,
    verifier.verifyOneOfMany proof coins serial price change ctx = true →
      ∃ coin ∈ coins, SpendsCoin P coin serial price change

theorem relationVerifier_oneOfManySound : OneOfManySound P (relationVerifier P) := by
  intro proof coins serial price change ctx h
  exact (relationVerifier_verifyOneOfMany P).1 h

/-- An accepted range proof of a deposit shows a value below `2 ^ 64`. -/
def DepositRangeSound (verifier : ProofVerify) : Prop :=
  ∀ bp c, verifier.verifyRangeProof bp [c] [] 64 = true →
    ∃ v : ℕ, v < 2 ^ 64 ∧ OpensTo P c v

theorem relationVerifier_depositRangeSound : DepositRangeSound P (relationVerifier P) := by
  intro bp c h
  exact ((relationVerifier_verifyRangeProof P).1 h).2 c (by simp)

end NullaRelay.ScanProof
