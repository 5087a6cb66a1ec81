import NullaRelay.Foundations.Lucas
import Mathlib.Tactic.ReduceModChar
import Mathlib.Tactic.NormNum.Prime

/-!
# The field of the STARK circuits

`BaseElement` is the 128-bit field of the circuits, the integers modulo
`2 ^ 128 - 45 * 2 ^ 40 + 1`. The modulus is proved prime, so that it is a field;
`asInt` is the canonical representative.
-/

namespace NullaRelay

open Lucas

/-- `p = 2^128 - 45 * 2^40 + 1`. -/
def baseModulus : ℕ := 2 ^ 128 - 45 * 2 ^ 40 + 1

theorem baseModulus_eq : baseModulus = 340282366920938463463374557953744961537 := by
  norm_num [baseModulus]

theorem prime_18053749339 : Nat.Prime 18053749339 := by
  refine prime_of_factors 3 [2, 3, 157, 19165339] ?_ (by norm_num) (by reduce_mod_char) ?_
  · simp
    norm_num
  · simp only [List.forall_mem_cons, Nat.reduceSub, Nat.reduceDiv]
    refine ⟨?_, ?_, ?_, ?_, by simp⟩ <;> · reduce_mod_char; decide

theorem baseModulus_prime : baseModulus.Prime := by
  rw [baseModulus_eq]
  refine prime_of_factors 3 (List.replicate 40 2 ++
    [29, 181, 286619, 11394379, 18053749339]) ?_ (by norm_num) (by reduce_mod_char) ?_
  · simp [prime_18053749339]
    norm_num
  · simp only [List.forall_mem_append, List.forall_mem_cons, List.forall_mem_replicate,
      Nat.reduceSub, Nat.reduceDiv]
    refine ⟨Or.inr ?_, ?_, ?_, ?_, ?_, ?_, by simp⟩ <;> · reduce_mod_char; decide

instance : Fact baseModulus.Prime := ⟨baseModulus_prime⟩

/-- An element of the circuits' field. -/
abbrev BaseElement := ZMod baseModulus

namespace BaseElement

/-- `BaseElement::new`: reduction of a 128-bit integer. -/
def new (x : ℕ) : BaseElement := (x : ZMod baseModulus)

/-- `as_int`: the representative below the modulus. -/
def asInt (x : BaseElement) : ℕ := x.val

theorem asInt_lt (x : BaseElement) : x.asInt < baseModulus := ZMod.val_lt x

@[simp] theorem new_asInt (x : BaseElement) : new x.asInt = x := ZMod.natCast_zmod_val x

theorem asInt_new_of_lt {x : ℕ} (h : x < baseModulus) : (new x).asInt = x :=
  ZMod.val_cast_of_lt h

/-- Below the modulus an element determines its integer. -/
theorem new_inj {x y : ℕ} (hx : x < baseModulus) (hy : y < baseModulus)
    (h : new x = new y) : x = y := by
  rw [← asInt_new_of_lt hx, h, asInt_new_of_lt hy]

end BaseElement

end NullaRelay
