import Mathlib.LinearAlgebra.Span.Basic
import Mathlib.LinearAlgebra.Prod
import Mathlib.Tactic.Module

/-!
# Knowledge of a preimage under a linear map

The three-move protocol that shows knowledge of a vector `w` with `φ w = A`. The
prover sends `R = φ k` for a nonce `k`, receives a challenge `c` and answers
`z = k + c • w`; the verifier checks `φ z = R + c • A`. The honest answer is
accepted for every challenge, and two accepted answers to one first message with
different challenges give a preimage of `A`.
-/

namespace NullaRelay.SigmaProtocol

variable {F W M : Type*} [Field F] [AddCommGroup W] [Module F W] [AddCommGroup M] [Module F M]

/-- The check of the verifier. -/
def Accepts (φ : W →ₗ[F] M) (A R : M) (c : F) (z : W) : Prop := φ z = R + c • A

/-- The answer of the prover. -/
def answer (w k : W) (c : F) : W := k + c • w

/-- The preimage that two answers give. -/
def extract (c c' : F) (z z' : W) : W := (c - c')⁻¹ • (z - z')

variable {φ : W →ₗ[F] M} {A R : M} {c c' : F} {z z' w k : W}

theorem accepts_answer (hw : φ w = A) (k : W) (c : F) :
    Accepts φ A (φ k) c (answer w k c) := by
  rw [Accepts, answer, map_add, map_smul, hw]

theorem map_extract (hc : c ≠ c') (h : Accepts φ A R c z) (h' : Accepts φ A R c' z') :
    φ (extract c c' z z') = A := by
  have hdiff : φ (z - z') = (c - c') • A := by
    calc
      φ (z - z') = (R + c • A) - (R + c' • A) := by rw [map_sub, h, h']
      _ = (c - c') • A := by module
  rw [extract, map_smul, hdiff, smul_smul, inv_mul_cancel₀ (sub_ne_zero.2 hc), one_smul]

end NullaRelay.SigmaProtocol
