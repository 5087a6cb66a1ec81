import Mathlib.LinearAlgebra.Vandermonde
import Mathlib.LinearAlgebra.Matrix.NonsingularInverse
import Mathlib.LinearAlgebra.LinearIndependent.Lemmas
import Mathlib.Tactic.Module
import Mathlib.Tactic.Ring

/-!
# Extraction from several challenges

The algebra behind special soundness, over any field and module. Two responses
to one first message open the commitment that the challenge multiplies; a bit
check that holds for two challenges makes the opened value idempotent; and a
polynomial with module coefficients whose values at more points than its degree
lie in a submodule has all its coefficients there.
-/

namespace NullaRelay.Extraction

variable {F M : Type*} [Field F] [AddCommGroup M] [Module F M]

/-- Coordinates along two independent vectors are unique. -/
theorem pair_ext {g h : M} (hind : LinearIndependent F ![g, h]) {a b a' b' : F}
    (heq : a • g + b • h = a' • g + b' • h) : a = a' ∧ b = b' := by
  have hzero : (a - a') • g + (b - b') • h = 0 := by
    calc
      (a - a') • g + (b - b') • h = (a • g + b • h) - (a' • g + b' • h) := by module
      _ = 0 := sub_eq_zero.2 heq
  obtain ⟨ha, hb⟩ := LinearIndependent.pair_iff.1 hind _ _ hzero
  exact ⟨sub_eq_zero.1 ha, sub_eq_zero.1 hb⟩

/-- A vanishing combination of three independent vectors is trivial. -/
theorem triple_eq_zero {u v w : M} (hind : LinearIndependent F ![u, v, w]) {a b c : F}
    (heq : a • u + b • v + c • w = 0) : a = 0 ∧ b = 0 ∧ c = 0 := by
  have hall := Fintype.linearIndependent_iff.1 hind ![a, b, c]
    (by simpa [Fin.sum_univ_three] using heq)
  exact ⟨hall 0, hall 1, hall 2⟩

/-- Two challenges open the vector that the challenge multiplies. -/
theorem opening_of_two {g h A B : M} {x x' f f' z z' : F} (hx : x ≠ x')
    (h₁ : x • A + B = f • g + z • h) (h₂ : x' • A + B = f' • g + z' • h) :
    ∃ l r a s : F, A = l • g + r • h ∧ B = a • g + s • h := by
  have hd : x - x' ≠ 0 := sub_ne_zero.2 hx
  have hdiff : (x - x') • A = (f - f') • g + (z - z') • h := by
    calc
      (x - x') • A = (x • A + B) - (x' • A + B) := by module
      _ = (f - f') • g + (z - z') • h := by
        rw [h₁, h₂]
        module
  have hA : A = ((x - x')⁻¹ * (f - f')) • g + ((x - x')⁻¹ * (z - z')) • h := by
    rw [mul_smul, mul_smul, ← smul_add, ← hdiff, smul_smul, inv_mul_cancel₀ hd, one_smul]
  refine ⟨_, _, f - x * ((x - x')⁻¹ * (f - f')), z - x * ((x - x')⁻¹ * (z - z')), hA, ?_⟩
  have hB : B = f • g + z • h - x • A := by
    rw [← h₁]
    abel
  rw [hB, hA]
  module

/-- The response to every challenge is the line through the opening. -/
theorem response_eq {g h A B : M} (hind : LinearIndependent F ![g, h])
    {l r a s x f z : F} (hA : A = l • g + r • h) (hB : B = a • g + s • h)
    (hx : x • A + B = f • g + z • h) : f = l * x + a := by
  have heq : f • g + z • h = (l * x + a) • g + (r * x + s) • h := by
    rw [← hx, hA, hB]
    module
  exact (pair_ext hind heq).1

/-- A bit check that two challenges pass makes the opened value a bit. -/
theorem bit_of_two {g h A B : M} (hind : LinearIndependent F ![g, h])
    {l r a x x' z z' : F} (hA : A = l • g + r • h) (hx : x ≠ x')
    (h₁ : (x - (l * x + a)) • A + B = z • h)
    (h₂ : (x' - (l * x' + a)) • A + B = z' • h) : l = 0 ∨ l = 1 := by
  have hdiff : ((1 - l) * (x - x')) • A = (z - z') • h := by
    calc
      ((1 - l) * (x - x')) • A =
          ((x - (l * x + a)) • A + B) - ((x' - (l * x' + a)) • A + B) := by module
      _ = (z - z') • h := by rw [h₁, h₂, sub_smul]
  have heq : ((1 - l) * (x - x') * l) • g + ((1 - l) * (x - x') * r) • h =
      (0 : F) • g + (z - z') • h := by
    rw [zero_smul, zero_add, ← hdiff, hA, smul_add, smul_smul, smul_smul]
  have hzero := (pair_ext hind heq).1
  have hd : x - x' ≠ 0 := sub_ne_zero.2 hx
  rcases mul_eq_zero.1 hzero with hl | hl
  · rcases mul_eq_zero.1 hl with hl | hl
    · exact Or.inr (sub_eq_zero.1 hl).symm
    · exact absurd hl hd
  · exact Or.inl hl

/-- The powers of `n` distinct points separate the coefficients: some
combination of the values at the points is the coefficient `k`. -/
theorem exists_coeff_combination {n : ℕ} {x : Fin n → F} (hx : Function.Injective x)
    (k : Fin n) : ∃ c : Fin n → F, ∀ j : Fin n,
      ∑ i, c i * x i ^ (j : ℕ) = if j = k then 1 else 0 := by
  have hdet : IsUnit (Matrix.vandermonde x).det :=
    (Matrix.det_vandermonde_ne_zero_iff.2 hx).isUnit
  refine ⟨fun i => (Matrix.vandermonde x)⁻¹ k i, fun j => ?_⟩
  have hmul := congrFun (congrFun (Matrix.nonsing_inv_mul _ hdet) k) j
  rw [Matrix.mul_apply, Matrix.one_apply] at hmul
  simpa [Matrix.vandermonde_apply, eq_comm] using hmul

/-- A polynomial of degree below `n` with coefficients in a module, whose values
at `n` distinct points lie in a submodule, has its coefficients there. -/
theorem coeff_mem_of_values_mem {n : ℕ} {x : Fin n → F} (hx : Function.Injective x)
    (S : Submodule F M) (P : Fin n → M)
    (hval : ∀ i, ∑ j : Fin n, x i ^ (j : ℕ) • P j ∈ S) (k : Fin n) : P k ∈ S := by
  obtain ⟨c, hc⟩ := exists_coeff_combination hx k
  have hPk : P k = ∑ i, c i • ∑ j : Fin n, x i ^ (j : ℕ) • P j := by
    calc
      P k = ∑ j : Fin n, (if j = k then (1 : F) else 0) • P j := by simp
      _ = ∑ j : Fin n, (∑ i, c i * x i ^ (j : ℕ)) • P j := by simp only [hc]
      _ = ∑ j : Fin n, ∑ i, c i • x i ^ (j : ℕ) • P j := by simp only [Finset.sum_smul, mul_smul]
      _ = ∑ i, c i • ∑ j : Fin n, x i ^ (j : ℕ) • P j := by
        rw [Finset.sum_comm]
        simp only [Finset.smul_sum]
  rw [hPk]
  exact Submodule.sum_mem S fun i _ => S.smul_mem (c i) (hval i)

end NullaRelay.Extraction
