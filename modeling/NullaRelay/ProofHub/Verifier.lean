import NullaRelay.ProofHub.PurchaseAir
import NullaRelay.ProofHub.SpendAir

/-!
# The ProofHub verifier

Commitments, signature checks and STARK checks of the verifier crate. The hash
function, the signature scheme and the STARK verifier are third-party code and
parameters here; a STARK check names its circuit by the public inputs.
-/

namespace NullaRelay.ProofHub.Verifier

open LittleEndian V2

/-- `blake3`, `fips204::ml_dsa_44` and `winter_verifier`. A signature check that
cannot read the key fails, and so does a STARK check that cannot read the proof. -/
structure Primitives where
  blake3 : List UInt8 → U8Array 32
  mlDsaVerify : List UInt8 → U8Array 32 → List UInt8 → Bool
  verifyPurchaseAir : List UInt8 → PurchaseAir.PurchasePI → Bool
  verifyDepositV2Air : List UInt8 → UInt64 → U8Array 32 → Bool
  verifySpendAir : List UInt8 → SpendAir.SpendPI → Bool

variable (P : Primitives)

def dilithiumPkLen : ℕ := 1312

def dilithiumSigLen : ℕ := 2420

def blake3Commitment (value : UInt64) (blinding : U8Array 32) : U8Array 32 :=
  P.blake3 (byteString "nulla_commitment_v1" ++ leBytes 8 value.toNat ++ blinding.toList)

def verifyCommitment (value : UInt64) (blinding commitment : U8Array 32) : Bool :=
  blake3Commitment P value blinding = commitment

/-- The first bytes of `auth` are a key, the others its signature of the hash of
the public inputs under a domain. -/
def verifySigned (domain : String) (auth publicInputs : List UInt8) : Bool :=
  auth.length = dilithiumPkLen + dilithiumSigLen ∧
    P.mlDsaVerify (auth.take dilithiumPkLen) (P.blake3 (byteString domain ++ publicInputs))
      (auth.drop dilithiumPkLen)

/-- The key is also the one that the spend tag at the head of the public inputs
names. -/
def verifyTagged (domain : String) (proof publicInputs : List UInt8) : Bool :=
  proof.length = dilithiumPkLen + dilithiumSigLen ∧ 32 ≤ publicInputs.length ∧
    (P.blake3 (byteString "nulla_spend_tag_v1" ++ proof.take dilithiumPkLen)).toList =
      publicInputs.take 32 ∧
    verifySigned P domain proof publicInputs

def verifyPurchase (proof publicInputs : List UInt8) : Bool :=
  verifyTagged P "nulla_purchase_v1" proof publicInputs

def verifyWithdrawal (proof publicInputs : List UInt8) : Bool :=
  verifyTagged P "nulla_withdrawal_v1" proof publicInputs

def verifyPurchaseProof (proof : List UInt8) (rpCommitment changeRpCommitment : U8Array 32)
    (price : UInt64) : Bool :=
  P.verifyPurchaseAir proof { rpCommitment, changeRpCommitment, price }

def verifyDepositV2 (proof : List UInt8) (amount : UInt64) (leaf : U8Array 32) : Bool :=
  P.verifyDepositV2Air proof amount leaf

def verifySpendV2 (proof : List UInt8) (root nullifier pkd : U8Array 32) (priceOrAmount : UInt64)
    (changeLeaf changePkd : U8Array 32) (purchaseMode : Bool) : Bool :=
  P.verifySpendAir proof
    { root, nullifier, pkd, priceOrAmount, changeLeaf, changePkd,
      mode := if purchaseMode then 1 else 0 }

def verifySpendAuthV2 (auth publicInputs : List UInt8) (withdraw : Bool) : Bool :=
  verifySigned P (if withdraw then "nulla_withdraw_auth_v2" else "nulla_spend_auth_v2") auth
    publicInputs

variable {P}

theorem verifySigned_eq_true {domain : String} {auth publicInputs : List UInt8} :
    verifySigned P domain auth publicInputs = true ↔
      auth.length = dilithiumPkLen + dilithiumSigLen ∧
        P.mlDsaVerify (auth.take dilithiumPkLen)
          (P.blake3 (byteString domain ++ publicInputs)) (auth.drop dilithiumPkLen) = true := by
  simp [verifySigned]

theorem verifyTagged_eq_true {domain : String} {proof publicInputs : List UInt8} :
    verifyTagged P domain proof publicInputs = true ↔
      proof.length = dilithiumPkLen + dilithiumSigLen ∧ 32 ≤ publicInputs.length ∧
        (P.blake3 (byteString "nulla_spend_tag_v1" ++ proof.take dilithiumPkLen)).toList =
          publicInputs.take 32 ∧
        verifySigned P domain proof publicInputs = true := by
  simp [verifyTagged]

theorem verifySigned_of_verifyTagged {domain : String} {proof publicInputs : List UInt8}
    (h : verifyTagged P domain proof publicInputs = true) :
    verifySigned P domain proof publicInputs = true :=
  (verifyTagged_eq_true.1 h).2.2.2

end NullaRelay.ProofHub.Verifier
