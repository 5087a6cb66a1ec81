import NullaRelay.ScanProof.VectorModel
import Mathlib.Algebra.Polynomial.BigOperators
import Mathlib.Algebra.Polynomial.Eval.Degree

/-!
# Special soundness of the one-of-many proof

From `m + 1` accepted challenges for one first message a coin of the group and
its blinding are extracted. The doubling table is a product over the bits of the
index, `exponents_getD`; two challenges open the bit commitments; the product is
then the value of a polynomial of degree at most `m` whose coefficient of degree
`m` is one for the index of the opened bits and zero elsewhere, so that the
membership check, taken at `m + 1` points, puts the difference of that index in
the span of `H`.
-/

namespace NullaRelay.ScanProof.OneOfMany

open Verifier Extraction Polynomial

/-- The product over the bits of the index, lowest bit first. -/
def bitProduct (x : Scalar) : List Scalar → ℕ → Scalar
  | [], _ => 1
  | f :: fs, i => (if i % 2 = 1 then f else x - f) * bitProduct x fs (i / 2)

@[simp] theorem expandAt_length (f1 f0 : Scalar) (w : ℕ) (e : List Scalar) (i : ℕ) :
    (expandAt f1 f0 w e i).length = e.length := by
  simp [expandAt]

theorem getD_set {l : List Scalar} {i : ℕ} (hi : i < l.length) (a : Scalar) (k : ℕ) :
    (l.set i a).getD k 0 = if k = i then a else l.getD k 0 := by
  simp only [List.getD_eq_getElem?_getD, List.getElem?_set]
  by_cases hk : k = i
  · subst hk
    simp [hi]
  · simp [hk, Ne.symm hk]

theorem expandAt_getD {f1 f0 : Scalar} {w i : ℕ} {e : List Scalar} (hw : 0 < w)
    (hlen : i + w < e.length) (k : ℕ) :
    (expandAt f1 f0 w e i).getD k 0 =
      if k = i then e.getD i 0 * f0
      else if k = i + w then e.getD i 0 * f1 else e.getD k 0 := by
  have hne : i ≠ i + w := by omega
  rw [expandAt, getD_set (by simpa using (by omega : i < e.length)), getD_set hlen,
    getD_set hlen, if_neg hne]

/-- The inner loop over the `t` lowest indices. -/
theorem expand_loop {f1 f0 : Scalar} {w : ℕ} : ∀ (t : ℕ) (e : List Scalar), t ≤ w →
    2 * w ≤ e.length → ∀ k,
      ((List.range t).reverse.foldl (expandAt f1 f0 w) e).getD k 0 =
        if k < t then e.getD k 0 * f0
        else if w ≤ k ∧ k < w + t then e.getD (k - w) 0 * f1 else e.getD k 0
  | 0, e, _, _, k => by
      simp
  | t + 1, e, ht, hlen, k => by
      have hstep := @expandAt_getD f1 f0 w t e (by omega) (by omega)
      have hloop := @expand_loop f1 f0 w t (expandAt f1 f0 w e t) (by omega)
        (by simpa using hlen) k
      rw [List.range_succ, List.reverse_append, List.reverse_singleton, List.singleton_append,
        List.foldl_cons, hloop, hstep, hstep]
      -- the step wrote `t` and `t + w`; the rest of the loop stays below `t` and `t + w`
      have hcases : k < t ∨ k = t ∨ (w ≤ k ∧ k < w + t) ∨ k = t + w ∨
          (t < k ∧ k ≠ t + w ∧ ¬ (w ≤ k ∧ k < w + t)) := by omega
      rcases hcases with hk | hk | hk | hk | hk
      · rw [if_pos hk, if_neg hk.ne, if_neg (by omega), if_pos (by omega)]
      · rw [if_neg (by omega), if_neg (by omega), if_pos hk, if_pos (by omega), hk]
      · rw [if_neg (by omega), if_pos hk, if_neg (by omega), if_neg (by omega),
          if_neg (by omega), if_pos (by omega)]
      · rw [if_neg (by omega), if_neg (by omega), if_neg (by omega), if_pos hk,
          if_neg (by omega), if_pos (by omega), hk, Nat.add_sub_cancel]
      · rw [if_neg (by omega), if_neg hk.2.2, if_neg hk.1.ne', if_neg hk.2.1,
          if_neg (by omega), if_neg (by omega)]

theorem expand_length (f1 f0 : Scalar) (w : ℕ) (e : List Scalar) :
    (expand f1 f0 w e).length = e.length := by
  have hall : ∀ (is : List ℕ) (e : List Scalar),
      (is.foldl (expandAt f1 f0 w) e).length = e.length := by
    intro is
    induction is with
    | nil => exact fun _ => rfl
    | cons i is ih => exact fun e => (ih _).trans (expandAt_length f1 f0 w e i)
  exact hall _ e

/-- One doubling: below `2 * w` the entry is the old one of the low bits, times
the factor that the new bit selects. -/
theorem expand_getD {f1 f0 : Scalar} {w : ℕ} {e : List Scalar} (hlen : 2 * w ≤ e.length)
    {k : ℕ} (hk : k < 2 * w) :
    (expand f1 f0 w e).getD k 0 =
      e.getD (k % w) 0 * (if k / w % 2 = 1 then f1 else f0) := by
  rw [expand, expand_loop w e le_rfl hlen]
  by_cases hlow : k < w
  · rw [if_pos hlow, Nat.mod_eq_of_lt hlow, Nat.div_eq_of_lt hlow]
    simp
  · have hdiv : k / w = 1 := Nat.div_eq_of_lt_le (by omega) (by omega)
    have hmod : k % w = k - w := by
      have := Nat.div_add_mod k w
      rw [hdiv] at this
      omega
    rw [if_neg hlow, if_pos (by omega), hdiv, hmod]
    simp

theorem expandAll_getD {x : Scalar} : ∀ (fs : List Scalar) (w : ℕ) (e : List Scalar), 0 < w →
    w * 2 ^ fs.length ≤ e.length → ∀ i < w * 2 ^ fs.length,
      (expandAll x fs w e).getD i 0 = e.getD (i % w) 0 * bitProduct x fs (i / w)
  | [], w, e, _, _, i, hi => by
      have hi' : i < w := by simpa using hi
      simp [expandAll, bitProduct, Nat.mod_eq_of_lt hi']
  | f :: fs, w, e, hw, hlen, i, hi => by
      have hpow : w * 2 ^ (f :: fs).length = 2 * w * 2 ^ fs.length := by
        rw [List.length_cons, pow_succ]
        ring
      rw [hpow] at hi hlen
      have hone : 1 ≤ 2 ^ fs.length := Nat.one_le_two_pow
      have hle : 2 * w ≤ e.length := le_trans (Nat.le_mul_of_pos_right _ hone) hlen
      have hbit : i % (2 * w) / w % 2 = i / w % 2 := by
        rw [Nat.mod_mul_left_div_self, Nat.mod_mod]
      have hlow : i % (2 * w) % w = i % w := Nat.mod_mod_of_dvd i (Dvd.intro_left 2 rfl)
      have hhigh : i / (2 * w) = i / w / 2 := by rw [Nat.div_div_eq_div_mul, mul_comm]
      rw [expandAll, expandAll_getD fs (2 * w) _ (by omega)
        (by rwa [expand_length]) i hi, expand_getD hle (Nat.mod_lt _ (by omega)), hbit, hlow,
        hhigh, bitProduct, mul_assoc]

/-- The doubling table holds the product over the bits of the index. -/
theorem exponents_getD {x : Scalar} {fs : List Scalar} {n : ℕ} (hn : n = 2 ^ fs.length)
    {i : ℕ} (hi : i < n) : (exponents x fs n).getD i 0 = bitProduct x fs i := by
  subst hn
  rw [exponents, expandAll_getD fs 1 _ Nat.one_pos (by simp) i (by simpa using hi)]
  simp [List.getD_eq_getElem?_getD, Nat.mod_one]

/-- The exponent of an index as a polynomial in the challenge, for responses
`l * x + a`. -/
noncomputable def bitPolynomial : List (Scalar × Scalar) → ℕ → Scalar[X]
  | [], _ => 1
  | (l, a) :: ps, i =>
      (if i % 2 = 1 then C l * X + C a else C (1 - l) * X + C (-a)) * bitPolynomial ps (i / 2)

/-- The index whose bits are the opened values. -/
def bitIndex : List (Scalar × Scalar) → ℕ
  | [] => 0
  | (l, _) :: ps => (if l = 1 then 1 else 0) + 2 * bitIndex ps

theorem bitPolynomial_eval (x : Scalar) : ∀ (ps : List (Scalar × Scalar)) (i : ℕ),
    (bitPolynomial ps i).eval x = bitProduct x (ps.map fun p => p.1 * x + p.2) i
  | [], i => by simp [bitPolynomial, bitProduct]
  | (l, a) :: ps, i => by
      rw [bitPolynomial, eval_mul, bitPolynomial_eval x ps, List.map_cons, bitProduct]
      split_ifs
      · simp
      · simp only [eval_add, eval_mul, eval_C, eval_X]
        ring

theorem bitFactor_natDegree_le (l a : Scalar) (i : ℕ) :
    (if i % 2 = 1 then C l * X + C a else C (1 - l) * X + C (-a)).natDegree ≤ 1 := by
  split_ifs <;> exact natDegree_linear_le

theorem bitPolynomial_natDegree_le : ∀ (ps : List (Scalar × Scalar)) (i : ℕ),
    (bitPolynomial ps i).natDegree ≤ ps.length
  | [], i => by simp [bitPolynomial]
  | (l, a) :: ps, i => by
      rw [bitPolynomial, List.length_cons, Nat.add_comm]
      exact natDegree_mul_le_of_le (bitFactor_natDegree_le l a i)
        (bitPolynomial_natDegree_le ps (i / 2))

/-- The top coefficient singles out the index of the opened bits. -/
theorem bitPolynomial_coeff_length : ∀ (ps : List (Scalar × Scalar)),
    (∀ p ∈ ps, p.1 = 0 ∨ p.1 = 1) → ∀ i < 2 ^ ps.length,
      (bitPolynomial ps i).coeff ps.length = if i = bitIndex ps then 1 else 0
  | [], _, i, hi => by
      obtain rfl : i = 0 := by simpa using hi
      simp [bitPolynomial, bitIndex]
  | (l, a) :: ps, hbits, i, hi => by
      have hi' : i / 2 < 2 ^ ps.length := by
        rw [List.length_cons, pow_succ] at hi
        omega
      have ih := bitPolynomial_coeff_length ps (fun p hp => hbits p (by simp [hp])) (i / 2) hi'
      rw [bitPolynomial, List.length_cons, Nat.add_comm,
        coeff_mul_add_eq_of_natDegree_le (bitFactor_natDegree_le l a i)
          (bitPolynomial_natDegree_le ps (i / 2)), ih]
      have hlin : ∀ b c : Scalar, (C b * X + C c).coeff 1 = b := by
        intro b c
        simp [coeff_C]
      rcases hbits (l, a) (by simp) with hl | hl
      · obtain rfl : l = 0 := hl
        simp only [bitIndex, apply_ite (fun p : Scalar[X] => p.coeff 1), hlin]
        split_ifs <;> first | omega | simp_all
      · obtain rfl : l = 1 := hl
        simp only [bitIndex, apply_ite (fun p : Scalar[X] => p.coeff 1), hlin]
        split_ifs <;> first | omega | simp_all

theorem bitIndex_lt : ∀ ps : List (Scalar × Scalar), bitIndex ps < 2 ^ ps.length
  | [] => by simp [bitIndex]
  | (l, a) :: ps => by
      have ih := bitIndex_lt ps
      rw [bitIndex, List.length_cons, pow_succ]
      split_ifs <;> omega

variable {V : Type} [AddCommGroup V] [Module Scalar V] {P : Primitives V}

theorem challengePowers_eq (x : Scalar) : ∀ (m : ℕ) (y : Scalar),
    challengePowers x m y = List.ofFn fun k : Fin m => y * x ^ (k : ℕ)
  | 0, y => rfl
  | m + 1, y => by
      rw [challengePowers, challengePowers_eq x m (y * x), List.ofFn_succ]
      simp [pow_succ', mul_assoc]

theorem multiscalarMul_append {ss ts : List Scalar} {ps qs : List V}
    (h : ss.length = ps.length) :
    multiscalarMul (ss ++ ts) (ps ++ qs) = multiscalarMul ss ps + multiscalarMul ts qs := by
  rw [multiscalarMul, List.zipWith_append h, List.sum_append, multiscalarMul, multiscalarMul]

theorem multiscalarMul_eq_sum : ∀ (ss : List Scalar) (ps : List V), ss.length = ps.length →
    multiscalarMul ss ps = ∑ i : Fin ps.length, ss.getD i 0 • ps.get i
  | [], [], _ => by simp [multiscalarMul]
  | s :: ss, p :: ps, h => by
      have ih := multiscalarMul_eq_sum ss ps (by simpa using h)
      rw [multiscalarMul] at ih ⊢
      rw [List.zipWith_cons_cons, List.sum_cons, ih]
      simp [Fin.sum_univ_succ]

theorem expandAll_length (x : Scalar) : ∀ (fs : List Scalar) (w : ℕ) (e : List Scalar),
    (expandAll x fs w e).length = e.length
  | [], _, _ => rfl
  | f :: fs, w, e => by rw [expandAll, expandAll_length x fs, expand_length]

/-- The sum that `verify` compares with `zd·H`, as a sum over the group and one
over the powers of the challenge. -/
theorem membershipSum_eq {m : ℕ} (x : Scalar) (fs : List.Vector Scalar m) {d : List V}
    (hd : d.length = 2 ^ m) (gk : List.Vector V m) :
    multiscalarMul (exponents x fs.toList d.length ++ (challengePowers x m 1).map fun s => -s)
        (d ++ gk.toList) =
      ∑ i : Fin d.length, bitProduct x fs.toList i • d.get i
        - ∑ k : Fin m, x ^ (k : ℕ) • gk.get k := by
  have hfs : d.length = 2 ^ fs.toList.length := by simpa using hd
  have hlen : (exponents x fs.toList d.length).length = d.length := by
    simp [exponents, expandAll_length]
  rw [multiscalarMul_append hlen, multiscalarMul_eq_sum _ _ hlen, sub_eq_add_neg]
  congr 1
  · exact Finset.sum_congr rfl fun i _ => by rw [exponents_getD hfs i.isLt]
  · obtain ⟨gk, rfl⟩ := gk
    rw [multiscalarMul_eq_sum _ _ (by simp [challengePowers_eq, List.Vector.toList]),
      ← Finset.sum_neg_distrib]
    refine Finset.sum_congr rfl fun k _ => ?_
    have hk : (k : ℕ) < gk.length := k.isLt
    simp [challengePowers_eq, List.Vector.get, hk]
    rfl

/-- The opened bits of a first message, as two accepted challenges give them:
the bit commitment `j` opens to a bit `l`, and every accepted response is
`l * x + a`. -/
theorem exists_bit (hind : LinearIndependent Scalar ![P.basepoint, generatorH P])
    {m n : ℕ} (msg : FirstMessage V m) (x : Fin (n + 2) → Scalar) (hx : Function.Injective x)
    (rsp : Fin (n + 2) → Response m) (j : Fin m)
    (hchk : ∀ t, bitChecks P (x t) msg (rsp t) j) :
    ∃ l a : Scalar, (l = 0 ∨ l = 1) ∧ ∀ t, (rsp t).fj.get j = l * x t + a := by
  have hne : x 0 ≠ x 1 := fun h => by simpa using hx h
  obtain ⟨l, r, a, s, hA, hB⟩ := opening_of_two hne (hchk 0).1 (hchk 1).1
  have hline : ∀ t, (rsp t).fj.get j = l * x t + a := fun t =>
    response_eq hind hA hB (hchk t).1
  refine ⟨l, a, ?_, hline⟩
  have h0 := (hchk 0).2
  have h1 := (hchk 1).2
  rw [hline] at h0 h1
  exact bit_of_two hind hA hne h0 h1

/-- The coefficient of degree `k` of the membership sum. -/
noncomputable def membershipCoeff {m : ℕ} (ps : List (Scalar × Scalar)) (d : List V)
    (gk : List.Vector V m) (k : Fin (m + 1)) : V :=
  ∑ i : Fin d.length, (bitPolynomial ps i).coeff k • d.get i
    - if h : (k : ℕ) < m then gk.get ⟨k, h⟩ else 0

theorem sum_membershipCoeff {m : ℕ} {ps : List (Scalar × Scalar)} (hps : ps.length = m)
    (d : List V) (gk : List.Vector V m) (x : Scalar) :
    ∑ k : Fin (m + 1), x ^ (k : ℕ) • membershipCoeff ps d gk k =
      ∑ i : Fin d.length, bitProduct x (ps.map fun p => p.1 * x + p.2) i • d.get i
        - ∑ k : Fin m, x ^ (k : ℕ) • gk.get k := by
  have heval : ∀ i : ℕ, ∑ k : Fin (m + 1), x ^ (k : ℕ) * (bitPolynomial ps i).coeff k =
      bitProduct x (ps.map fun p => p.1 * x + p.2) i := by
    intro i
    rw [← bitPolynomial_eval, eval_eq_sum_range' (n := m + 1)
      (Nat.lt_succ_of_le (hps ▸ bitPolynomial_natDegree_le ps i)), Finset.sum_range]
    exact Finset.sum_congr rfl fun k _ => mul_comm _ _
  simp only [membershipCoeff, smul_sub, Finset.sum_sub_distrib, Finset.smul_sum, smul_smul]
  congr 1
  · rw [Finset.sum_comm]
    exact Finset.sum_congr rfl fun i _ => by rw [← Finset.sum_smul, heval]
  · rw [Fin.sum_univ_castSucc]
    simp

/-- The coefficient of degree `m` is the difference of the opened index. -/
theorem membershipCoeff_last {m : ℕ} {ps : List (Scalar × Scalar)} (hps : ps.length = m)
    (hbits : ∀ p ∈ ps, p.1 = 0 ∨ p.1 = 1) {d : List V} (hd : d.length = 2 ^ m)
    (gk : List.Vector V m) :
    membershipCoeff ps d gk (Fin.last m) =
      d.get ⟨bitIndex ps, by rw [hd, ← hps]; exact bitIndex_lt ps⟩ := by
  subst hps
  have hcoeff : ∀ i : Fin d.length,
      (bitPolynomial ps i).coeff ps.length = if (i : ℕ) = bitIndex ps then 1 else 0 :=
    fun i => bitPolynomial_coeff_length ps hbits i (by simpa [hd] using i.isLt)
  simp only [membershipCoeff, Fin.val_last, lt_irrefl, dite_false, sub_zero, hcoeff]
  rw [Finset.sum_eq_single ⟨bitIndex ps, by rw [hd]; exact bitIndex_lt ps⟩]
  · simp
  · intro i _ hi
    have hne : (i : ℕ) ≠ bitIndex ps := fun h => hi (Fin.ext h)
    simp [hne]
  · simp

/-- Special soundness: `m + 1` accepted challenges for one first message give a
coin of the group which, less the serial, the price and the change, is a
multiple of `H`. -/
theorem one_of_many_special_soundness
    (hind : LinearIndependent Scalar ![P.basepoint, generatorH P])
    {m : ℕ} (hm : 1 ≤ m) {coins : List (U8Array 32)} (hlen : coins.length = 2 ^ m)
    {serial : U8Array 32} {price : UInt64} {change : U8Array 32} {d : List V}
    (hd : dSet P coins serial price change = some d) (msg : FirstMessage V m)
    (x : Fin (m + 1) → Scalar) (hx : Function.Injective x) (rsp : Fin (m + 1) → Response m)
    (hacc : ∀ t, verifyEquations P (x t) d msg (rsp t)) :
    ∃ i : Fin coins.length, SpendsCoin P coins[i] serial price change := by
  obtain ⟨n, rfl⟩ : ∃ n, m = n + 1 := ⟨m - 1, by omega⟩
  have hdlen : d.length = 2 ^ (n + 1) := (dSet_length hd).trans hlen
  choose l a hbit hline using fun j =>
    exists_bit hind msg x hx rsp j fun t => (hacc t).1 j
  let ps : List (Scalar × Scalar) := List.ofFn fun j => (l j, a j)
  have hps : ps.length = n + 1 := List.length_ofFn
  have hbits : ∀ p ∈ ps, p.1 = 0 ∨ p.1 = 1 := by
    intro p hp
    obtain ⟨j, rfl⟩ := List.mem_ofFn.1 hp
    exact hbit j
  have hfj : ∀ t, (rsp t).fj.toList = ps.map fun p => p.1 * x t + p.2 := by
    intro t
    rw [List.map_ofFn, ← List.Vector.ofFn_get (rsp t).fj, List.Vector.toList_ofFn]
    exact congrArg List.ofFn (funext fun j => hline j t)
  have hval : ∀ t, ∑ k : Fin (n + 1 + 1), x t ^ (k : ℕ) • membershipCoeff ps d msg.gk k ∈
      Submodule.span Scalar {generatorH P} := by
    intro t
    have hmem := (hacc t).2
    rw [membershipCheck, membershipSum_eq (x t) (rsp t).fj hdlen, hfj] at hmem
    rw [sum_membershipCoeff hps, hmem]
    exact Submodule.mem_span_singleton.2 ⟨_, rfl⟩
  have htop := coeff_mem_of_values_mem hx _ _ hval (Fin.last (n + 1))
  rw [membershipCoeff_last hps hbits hdlen] at htop
  obtain ⟨r, hr⟩ := Submodule.mem_span_singleton.1 htop
  obtain ⟨ch, hch, hall⟩ := dSet_eq_some.1 hd
  have hidx : bitIndex ps < d.length := by
    rw [hdlen, ← hps]
    exact bitIndex_lt ps
  have hidx' : bitIndex ps < coins.length := by rwa [hall.length_eq]
  obtain ⟨pt, hpt, heq⟩ := (List.forall₂_iff_get.1 hall).2 (bitIndex ps) hidx' hidx
  exact ⟨⟨bitIndex ps, hidx'⟩, pt, ch, hpt, hch, r, heq.trans hr.symm⟩

/-- Two copies of a coin, the zero message and the responses to the challenges
zero and one. -/
theorem one_of_many_special_soundness_pair :
    ∃ i : Fin [encodePoint 1 3 5, encodePoint 1 3 5].length,
      SpendsCoin vectorPrimitives [encodePoint 1 3 5, encodePoint 1 3 5][i] (U8Array.ofNat 32 1) 3
        (U8Array.zero 32) := by
  have hcoin := decodePoint_encodePoint (s := 1) (v := 3) (r := 5) (by norm_num) (by norm_num)
    (by norm_num)
  have hserial : Scalar.fromBytesModOrder (U8Array.ofNat 32 1) = 1 := by
    rw [Scalar.fromBytesModOrder, U8Array.toNat_ofNat (by norm_num), Nat.cast_one]
  have hd : dSet vectorPrimitives [encodePoint 1 3 5, encodePoint 1 3 5] (U8Array.ofNat 32 1) 3
      (U8Array.zero 32) = some [(0, 0, 5), (0, 0, 5)] := by
    simp [dSet, hcoin, hserial, spendOffset, Scalar.ofU64]
  refine one_of_many_special_soundness vector_independent_pair (m := 1) le_rfl rfl hd
    ⟨⟨[0], rfl⟩, ⟨[0], rfl⟩, ⟨[0], rfl⟩, ⟨[0], rfl⟩⟩ ![0, 1] ?_
    (fun t => ⟨⟨[0], rfl⟩, ⟨[0], rfl⟩, ⟨[0], rfl⟩, 5 * ![0, 1] t⟩) ?_
  · intro i j hij
    fin_cases i <;> fin_cases j <;> simp_all
  · intro t
    fin_cases t <;> simp [verifyEquations, bitChecks, membershipCheck, multiscalarMul, exponents,
      expandAll, expand, expandAt, challengePowers, List.Vector.get, List.Vector.toList]

end NullaRelay.ScanProof.OneOfMany
