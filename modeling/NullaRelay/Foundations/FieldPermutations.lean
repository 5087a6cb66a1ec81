import NullaRelay.Foundations.Air
import Mathlib.GroupTheory.OrderOfElement
import Mathlib.Data.Fintype.Units
import Mathlib.Algebra.BigOperators.Fin
import Mathlib.FieldTheory.Finite.Basic

/-!
# Permutations of a finite field's vectors

A round of an algebraic permutation adds constants, raises elements to a power and
mixes them linearly. A power is injective when its exponent is coprime to the order
of the multiplicative group, and adding the sum of a vector to each of its elements
is injective when the field does not see the dimension plus one as zero. Rounds one
after another are bijective when each of them is.
-/

namespace NullaRelay

open Finset

section Power

variable {F : Type*} [Field F] [Fintype F] {n : ℕ}

/-- A power whose exponent is coprime to the order of the units. -/
theorem pow_injective_of_coprime (hn : n ≠ 0) (h : (Fintype.card F - 1).Coprime n) :
    Function.Injective fun x : F => x ^ n := by
  have hunits : (Nat.card Fˣ).Coprime n := by
    classical
    rwa [Nat.card_eq_fintype_card, Fintype.card_units]
  intro x y hxy
  change x ^ n = y ^ n at hxy
  by_cases hx : x = 0
  · have hy : y ^ n = 0 := by rw [← hxy, hx, zero_pow hn]
    rw [hx, eq_zero_of_pow_eq_zero hy]
  · have hy : y ≠ 0 := by
      rintro rfl
      rw [zero_pow hn] at hxy
      exact hx (eq_zero_of_pow_eq_zero hxy)
    have hmk : Units.mk0 x hx ^ n = Units.mk0 y hy ^ n := by
      apply Units.ext
      simpa using hxy
    exact congrArg Units.val (hunits.pow_left_bijective.injective hmk)

end Power

section Mixing

variable {ι F : Type*} [Fintype ι] [Field F]

/-- The sum of a vector added to each of its elements. -/
def addSum (b : ι → F) (i : ι) : F := b i + ∑ j, b j

theorem sum_addSum (b : ι → F) : ∑ i, addSum b i = (Fintype.card ι + 1) * ∑ j, b j := by
  simp only [addSum, sum_add_distrib, sum_const, card_univ, nsmul_eq_mul]
  ring

theorem addSum_injective (h : (Fintype.card ι + 1 : F) ≠ 0) :
    Function.Injective (addSum : (ι → F) → ι → F) := by
  intro b c hbc
  have hsum : ∑ j, b j = ∑ j, c j := by
    have hmul : (Fintype.card ι + 1 : F) * ∑ j, b j = (Fintype.card ι + 1) * ∑ j, c j := by
      rw [← sum_addSum, ← sum_addSum, hbc]
    exact mul_left_cancel₀ h hmul
  funext i
  have hi : b i + ∑ j, b j = c i + ∑ j, c j := congrFun hbc i
  rwa [hsum, add_left_inj] at hi

end Mixing

/-- Bijective rounds compose to a bijection. -/
theorem Air.steps_bijective {α : Type*} {f : ℕ → α → α} (h : ∀ k, Function.Bijective (f k))
    (n : ℕ) : Function.Bijective (Air.steps f n) := by
  induction n with
  | zero => exact Function.bijective_id
  | succ n ih => exact (h n).comp ih

end NullaRelay
