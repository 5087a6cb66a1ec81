import NullaRelay.ScanProof.Completeness
import Mathlib.Algebra.BigOperators.Fin

/-!
# The tables of the one-of-many proof

The verifier's doubling table and the prover's coefficient vectors say the same for
every bit vector: an entry of the table is the product over the bits of its index,
the coefficient vector of that index has this product as its value at the challenge,
and its top coefficient is one for the index with the bit vector and zero elsewhere.
-/

namespace NullaRelay.ScanProof.OneOfMany

open Verifier Polynomial

variable {m i index : ℕ}

/-- The product over the bits, with the bits read off the index. -/
theorem bitProduct_eq_prod (x : Scalar) (fs : List Scalar) (i : ℕ) :
    bitProduct x fs i =
      ∏ j : Fin fs.length, if i.testBit j then fs.get j else x - fs.get j := by
  induction fs generalizing i with
  | nil => rfl
  | cons f fs ih =>
      have hlow : (if i % 2 = 1 then f else x - f) = if i.testBit 0 then f else x - f := by
        simp [Nat.testBit_zero]
      have hsplit := Fin.prod_univ_succ (n := fs.length) fun j : Fin (fs.length + 1) =>
        if i.testBit j then (f :: fs).get j else x - (f :: fs).get j
      refine Eq.trans ?_ hsplit.symm
      rw [bitProduct, ih, hlow]
      congr 1
      refine Finset.prod_congr rfl fun j _ => ?_
      rw [Fin.val_succ, Nat.testBit_succ]
      rfl

theorem length_exponents (x : Scalar) (fs : List Scalar) (n : ℕ) :
    (exponents x fs n).length = n := by
  rw [exponents, expandAll_length, List.length_replicate]

theorem length_multiplyBits (as : List Scalar) {j : ℕ} {coeffs : List Scalar}
    (hcoeffs : coeffs.length = m + 1) (hlen : j + as.length ≤ m) :
    (multiplyBits m index i as j coeffs).length = m + 1 := by
  induction as generalizing j coeffs with
  | nil => exact hcoeffs
  | cons a as ih =>
      rw [List.length_cons] at hlen
      have hlinear (c1 c0 : Scalar) : (multiplyLinear c1 c0 m j coeffs).length = m + 1 :=
        (multiplyAt_loop (by omega)).1
      rw [multiplyBits]
      split_ifs
      · exact ih (hlinear _ _) (by omega)
      · exact ih (hlinear _ _) (by omega)

/-- A coefficient vector has one place for each degree up to `m`. -/
theorem length_coefficients (aj : List.Vector Scalar m) (i : ℕ) :
    (coefficients index aj i).length = m + 1 :=
  length_multiplyBits aj.toList (by simp) (by simp)

/-- The value of a coefficient vector at the challenge is the exponent. -/
theorem coefficients_eval (aj : List.Vector Scalar m) (i : ℕ) (x : Scalar) :
    ∑ k : Fin (m + 1), (coefficients index aj i).getD k 0 * x ^ (k : ℕ) =
      bitProduct x ((openings index 0 aj.toList).map fun p => p.1 * x + p.2) i := by
  have hdegree : (bitPolynomial (openings index 0 aj.toList) i).natDegree < m + 1 := by
    have hle := bitPolynomial_natDegree_le (openings index 0 aj.toList) i
    rw [length_openings, List.Vector.toList_length] at hle
    omega
  rw [← bitPolynomial_eval, eval_eq_sum_range' hdegree, Finset.sum_range]
  exact Finset.sum_congr rfl fun k _ => by rw [isCoefficients_coefficients aj i k]

/-- The top coefficient singles out the prover's index. -/
theorem coefficients_top (aj : List.Vector Scalar m) (hi : i < 2 ^ m) (hindex : index < 2 ^ m) :
    (coefficients index aj i).getD m 0 = if i = index then 1 else 0 := by
  have hlen : (openings index 0 aj.toList).length = m := by simp
  have hbits : bitIndex (openings index 0 aj.toList) = index := by
    rw [bitIndex_openings, pow_zero, Nat.div_one, List.Vector.toList_length,
      Nat.mod_eq_of_lt hindex]
  have htop := bitPolynomial_coeff_length (openings index 0 aj.toList)
    (fun p hp => openings_bit hp) i (by rwa [hlen])
  rw [hlen, hbits] at htop
  rw [isCoefficients_coefficients aj i m, htop]

section BitVector

variable (l : Fin m → Bool) (aj : List.Vector Scalar m) (x : Scalar)

/-- `f_j = l_j·x + a_j`. -/
def bitResponses : List.Vector Scalar m :=
  .ofFn fun j => (if l j then 1 else 0) * x + aj.get j

theorem bitScalar_ofBits (j : Fin m) :
    bitScalar (Nat.ofBits l) j = if l j then 1 else 0 := by
  have hbit : Nat.ofBits l / 2 ^ (j : ℕ) % 2 = 1 ↔ l j = true := by
    have htest : (Nat.ofBits l).testBit j = l j := Nat.testBit_ofBits_lt l j j.isLt
    rw [← htest, Nat.testBit_eq_decide_div_mod_eq, decide_eq_true_iff]
  rw [bitScalar_eq]
  exact if_congr hbit rfl rfl

/-- The responses are those of the openings of the index. -/
theorem bitResponses_toList : (bitResponses l aj x).toList =
    (openings (Nat.ofBits l) 0 aj.toList).map fun p => p.1 * x + p.2 := by
  refine List.ext_getElem? fun k => ?_
  rw [List.getElem?_map, openings_getElem?, Option.map_map, zero_add, bitResponses,
    List.Vector.toList_ofFn]
  by_cases hk : k < m
  · have hbit : bitScalar (Nat.ofBits l) k = if l ⟨k, hk⟩ then 1 else 0 :=
      bitScalar_ofBits l ⟨k, hk⟩
    simp [hk, List.Vector.get_eq_get_toList, hbit]
  · simp [hk]

/-- An index below `2 ^ m` is the one with the bits when its bits are these. -/
theorem eq_ofBits_iff (hi : i < 2 ^ m) :
    i = Nat.ofBits l ↔ ∀ j : Fin m, i.testBit j = l j := by
  constructor
  · rintro rfl j
    exact Nat.testBit_ofBits_lt l j j.isLt
  · intro h
    have hbits : (fun j : Fin m => i.testBit j) = l := funext h
    rw [← hbits, Nat.ofBits_testBit, Nat.mod_eq_of_lt hi]

end BitVector

/-- The table of the verifier and the coefficient vectors of the prover, for every
number of bits, every bit vector, the prover's scalars and the challenge. -/
theorem tables_agree (m : ℕ) (l : Fin m → Bool) (aj : List.Vector Scalar m) (x : Scalar) :
    let f := bitResponses l aj x
    let exps := exponents x f.toList (2 ^ m)
    let p := coefficients (Nat.ofBits l) aj
    exps.length = 2 ^ m ∧ ∀ i < 2 ^ m,
      exps.getD i 0 = ∏ j : Fin m, (if i.testBit j then f.get j else x - f.get j) ∧
      (p i).length = m + 1 ∧
      ∑ k : Fin (m + 1), (p i).getD k 0 * x ^ (k : ℕ) = exps.getD i 0 ∧
      (p i).getD m 0 = if ∀ j : Fin m, i.testBit j = l j then 1 else 0 := by
  intro f exps p
  refine ⟨length_exponents _ _ _, fun i hi => ?_⟩
  have hproduct : exps.getD i 0 = bitProduct x f.toList i :=
    exponents_getD (by rw [List.Vector.toList_length]) hi
  refine ⟨?_, length_coefficients aj i, ?_, ?_⟩
  · rw [hproduct, bitProduct_eq_prod]
    exact Fintype.prod_equiv (finCongr f.toList_length) _ _ fun j => rfl
  · rw [hproduct, coefficients_eval, bitResponses_toList]
  · rw [coefficients_top aj hi (Nat.ofBits_lt_two_pow l)]
    exact if_congr (eq_ofBits_iff l hi) rfl rfl

end NullaRelay.ScanProof.OneOfMany
