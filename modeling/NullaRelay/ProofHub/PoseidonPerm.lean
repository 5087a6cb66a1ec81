import NullaRelay.Foundations.FieldPermutations
import NullaRelay.ProofHub.Poseidon

/-!
# The Poseidon permutation is one

A round adds its constants, cubes the elements, all of them or the first, and adds
the sum of the four to each. Cubing is a bijection of the field since its modulus is
two modulo three, and the mixing is one since five is not zero in it; so is every
round, on any constants, and the 64 rounds one after another.
-/

namespace NullaRelay.ProofHub

open Air

/-- The modulus less one is not a multiple of three. -/
theorem coprime_three : (Fintype.card BaseElement - 1).Coprime 3 := by
  rw [ZMod.card, baseModulus_eq]
  norm_num

theorem cube_injective : Function.Injective fun x : BaseElement => x ^ 2 * x := by
  have hpow : (fun x : BaseElement => x ^ 2 * x) = fun x => x ^ 3 := by
    funext x
    ring
  rw [hpow]
  exact pow_injective_of_coprime (by decide) coprime_three

/-- What a round does to one element of the state, after the constant is added. -/
def substitute (isFull : BaseElement) (i : Fin 4) (x : BaseElement) : BaseElement :=
  if i = 0 then x ^ 2 * x else isFull * (x ^ 2 * x) + (1 - isFull) * x

theorem substitute_injective {isFull : BaseElement} (h : isFull = 0 ∨ isFull = 1) (i : Fin 4) :
    Function.Injective (substitute isFull i) := by
  by_cases hcube : i = 0 ∨ isFull = 1
  · have heq : substitute isFull i = fun x => x ^ 2 * x := by
      funext x
      rcases hcube with rfl | rfl <;> simp [substitute]
    rw [heq]
    exact cube_injective
  · have hzero : isFull = 0 := h.resolve_right fun h1 => hcube (.inr h1)
    have hi : i ≠ 0 := fun h0 => hcube (.inl h0)
    have heq : substitute isFull i = id := by
      funext x
      simp [substitute, hi, hzero]
    rw [heq]
    exact Function.injective_id

/-- A round is the substitution on each element, then the mixing. -/
theorem poseidonRound_eq (rc : Fin 4 → BaseElement) (isFull : BaseElement) (s : PoseidonState) :
    poseidonRound rc isFull s = addSum fun i => substitute isFull i (s i + rc i) := by
  funext i
  rw [addSum, Fin.sum_univ_four]
  fin_cases i <;> rfl

theorem five_ne_zero : (Fintype.card (Fin 4) + 1 : BaseElement) ≠ 0 := by
  have hcast : (Fintype.card (Fin 4) + 1 : BaseElement) = BaseElement.new 5 := by
    norm_num [BaseElement.new]
  rw [hcast]
  intro h
  have hzero : (5 : ℕ) = 0 := BaseElement.new_inj (by rw [baseModulus_eq]; norm_num)
    (by rw [baseModulus_eq]; norm_num) (h.trans Nat.cast_zero.symm)
  omega

theorem poseidonRound_injective (rc : Fin 4 → BaseElement) {isFull : BaseElement}
    (h : isFull = 0 ∨ isFull = 1) : Function.Injective (poseidonRound rc isFull) := by
  intro s s' heq
  rw [poseidonRound_eq, poseidonRound_eq] at heq
  have hsubstitute := addSum_injective five_ne_zero heq
  funext i
  exact add_right_cancel (substitute_injective h i (congrFun hsubstitute i))

/-- A round, full or partial, on any constants. -/
theorem poseidonRound_bijective (rc : Fin 4 → BaseElement) {isFull : BaseElement}
    (h : isFull = 0 ∨ isFull = 1) : Function.Bijective (poseidonRound rc isFull) :=
  Finite.injective_iff_bijective.1 (poseidonRound_injective rc h)

theorem mask_eq_zero_or_one (c : Prop) [Decidable c] :
    (mask c : BaseElement) = 0 ∨ (mask c : BaseElement) = 1 := by
  by_cases hc : c
  · exact .inr (mask_pos hc)
  · exact .inl (mask_neg hc)

theorem poseidonEvalRoundBase_bijective (blake3 : List UInt8 → U8Array 32) (round : ℕ) :
    Function.Bijective (poseidonEvalRoundBase blake3 round) :=
  poseidonRound_bijective _ (mask_eq_zero_or_one _)

/-- Each round is a bijection of the states, whatever its constants, and so are 64 of them
in turn. -/
theorem poseidon_invertible (blake3 : List UInt8 → U8Array 32) :
    (∀ (rc : Fin 4 → BaseElement) (round : ℕ),
      Function.Bijective (poseidonRound rc (mask (isFullRound round)))) ∧
    (∀ rc : ℕ → Fin 4 → BaseElement, Function.Bijective
      (steps (fun r => poseidonRound (rc r) (mask (isFullRound r))) poseidonRounds)) ∧
    (∀ round, Function.Bijective (poseidonEvalRoundBase blake3 round)) ∧
    Function.Bijective (poseidonPerm blake3) := by
  have hround (rc : Fin 4 → BaseElement) (round : ℕ) :
      Function.Bijective (poseidonRound rc (mask (isFullRound round))) :=
    poseidonRound_bijective rc (mask_eq_zero_or_one _)
  refine ⟨hround, fun rc => ?_, poseidonEvalRoundBase_bijective blake3, ?_⟩
  · exact steps_bijective (fun r => hround (rc r) r) poseidonRounds
  · exact steps_bijective (poseidonEvalRoundBase_bijective blake3) poseidonRounds

end NullaRelay.ProofHub
