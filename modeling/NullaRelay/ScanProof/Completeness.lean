import NullaRelay.ScanProof.Prover
import NullaRelay.ScanProof.SpecialSoundness

/-!
# Completeness of the one-of-many proof

The prover's coefficient vectors are those of the polynomials behind the verifier's
doubling table, for the bits of the index. For every choice of nonces and every
challenge the honest messages satisfy the three equations: all coefficients of the
membership sum below the top are multiples of `H`, and the top one is the difference
that the blinding opens. What the prover serializes the verifier reads back, so that
every proof that `prove` returns is accepted.
-/

namespace NullaRelay.ScanProof.OneOfMany

open Verifier LittleEndian Polynomial

section Coefficients

variable {c1 c0 : Scalar} {m t deg index i j : ℕ} {coeffs as : List Scalar} {q : Scalar[X]}

theorem bitAt_eq (i j : ℕ) : bitAt i j = i / 2 ^ j % 2 := by
  rw [bitAt, Nat.and_one_is_mod, Nat.shiftRight_eq_div_pow]

theorem bitScalar_eq (index j : ℕ) :
    bitScalar index j = if index / 2 ^ j % 2 = 1 then 1 else 0 := by
  rw [bitScalar, bitAt_eq]
  rcases Nat.mod_two_eq_zero_or_one (index / 2 ^ j) with h0 | h1
  · rw [h0, if_neg (by decide)]
    exact Nat.cast_zero
  · rw [h1, if_pos rfl]
    exact Nat.cast_one

/-- The first `t` steps of the multiplication. -/
theorem multiplyAt_loop (ht : t ≤ m) :
    ((List.range t).foldl (multiplyAt c1 c0 coeffs) (List.replicate (m + 1) 0)).length = m + 1 ∧
      ∀ k, ((List.range t).foldl (multiplyAt c1 c0 coeffs) (List.replicate (m + 1) 0)).getD k 0 =
        (if k < t then coeffs.getD k 0 * c0 else 0) +
          if 0 < k ∧ k ≤ t then coeffs.getD (k - 1) 0 * c1 else 0 := by
  induction t with
  | zero =>
      refine ⟨by simp, fun k => ?_⟩
      rw [if_neg (by omega), if_neg (by omega), add_zero, List.range_zero, List.foldl_nil]
      by_cases hk : k < m + 1
      · simp [List.getD_eq_getElem?_getD, hk]
      · simp [List.getD_eq_getElem?_getD, hk]
  | succ t ih =>
      obtain ⟨hlen, hloop⟩ := ih (by omega)
      rw [List.range_succ, List.foldl_append, List.foldl_cons, List.foldl_nil]
      refine ⟨by simp [multiplyAt, hlen], fun k => ?_⟩
      rw [multiplyAt, getD_set (by simp [hlen]; omega), getD_set (by omega), getD_set (by omega),
        hloop, hloop, hloop]
      by_cases hnext : k = t + 1
      · subst hnext
        rw [if_pos rfl, if_neg (by omega), if_neg (by omega), if_neg (by omega), if_neg (by omega),
          if_pos (by omega), Nat.add_sub_cancel, zero_add, zero_add]
      · rw [if_neg hnext]
        by_cases hlast : k = t
        · subst hlast
          rw [if_pos rfl, if_neg (lt_irrefl k), if_pos (Nat.lt_succ_self k), zero_add, add_comm]
          congr 1
          split_ifs <;> first | rfl | omega
        · rw [if_neg hlast]
          congr 1 <;> split_ifs <;> first | rfl | omega

/-- `coeffs` lists the coefficients of `q`. -/
def IsCoefficients (coeffs : List Scalar) (q : Scalar[X]) : Prop :=
  ∀ k, coeffs.getD k 0 = q.coeff k

theorem isCoefficients_multiplyLinear (h : IsCoefficients coeffs q) (hq : q.natDegree ≤ deg)
    (hdeg : deg + 1 ≤ m) :
    IsCoefficients (multiplyLinear c1 c0 m deg coeffs) (q * (C c1 * X + C c0)) := by
  intro k
  have hzero (k : ℕ) (hk : deg < k) : q.coeff k = 0 := coeff_eq_zero_of_natDegree_lt (by omega)
  rw [multiplyLinear, (multiplyAt_loop hdeg).2, mul_add, coeff_add, coeff_mul_C, h k,
    ← mul_assoc, mul_comm q, add_comm]
  congr 1
  · cases k with
    | zero => simp
    | succ k =>
        rw [coeff_mul_X, coeff_C_mul, Nat.add_sub_cancel, h k, mul_comm c1]
        split_ifs with hk
        · rfl
        · rw [hzero k (by omega), zero_mul]
  · split_ifs with hk
    · rfl
    · rw [hzero k (by omega), zero_mul]

/-- The pairs `(l_j, a_j)` from bit `j` on. -/
def openings (index : ℕ) : ℕ → List Scalar → List (Scalar × Scalar)
  | _, [] => []
  | j, a :: as => (bitScalar index j, a) :: openings index (j + 1) as

@[simp] theorem length_openings : (openings index j as).length = as.length := by
  induction as generalizing j with
  | nil => rfl
  | cons a as ih => rw [openings, List.length_cons, ih, List.length_cons]

theorem openings_bit {p : Scalar × Scalar} (hp : p ∈ openings index j as) :
    p.1 = 0 ∨ p.1 = 1 := by
  induction as generalizing j with
  | nil => exact absurd hp List.not_mem_nil
  | cons a as ih =>
      rcases List.mem_cons.1 hp with rfl | hp
      · rw [bitScalar_eq]
        split_ifs
        · exact .inr rfl
        · exact .inl rfl
      · exact ih hp

/-- The opened index is the prover's. -/
theorem bitIndex_openings : bitIndex (openings index j as) = index / 2 ^ j % 2 ^ as.length := by
  induction as generalizing j with
  | nil => rw [openings, bitIndex, List.length_nil, pow_zero, Nat.mod_one]
  | cons a as ih =>
      have hbit : (if bitScalar index j = 1 then 1 else 0) = index / 2 ^ j % 2 := by
        rw [bitScalar_eq]
        rcases Nat.mod_two_eq_zero_or_one (index / 2 ^ j) with h0 | h1
        · rw [h0, if_neg (@zero_ne_one ℕ _ _ _), if_neg zero_ne_one]
        · rw [h1, if_pos rfl, if_pos rfl]
      rw [openings, bitIndex, ih, hbit, List.length_cons, pow_succ' 2 as.length, Nat.mod_mul,
        Nat.div_div_eq_div_mul, ← pow_succ]

theorem isCoefficients_multiplyBits (h : IsCoefficients coeffs q) (hq : q.natDegree ≤ j)
    (hlen : j + as.length ≤ m) :
    IsCoefficients (multiplyBits m index i as j coeffs)
      (q * bitPolynomial (openings index j as) (i / 2 ^ j)) := by
  induction as generalizing j coeffs q with
  | nil => rwa [multiplyBits, openings, bitPolynomial, mul_one]
  | cons a as ih =>
      rw [List.length_cons] at hlen
      have hdiv : i / 2 ^ (j + 1) = i / 2 ^ j / 2 := by rw [pow_succ, Nat.div_div_eq_div_mul]
      have hfactor (c1 c0 : Scalar) : (q * (C c1 * X + C c0)).natDegree ≤ j + 1 :=
        natDegree_mul_le_of_le hq natDegree_linear_le
      rw [multiplyBits, openings, bitPolynomial, bitAt_eq, ← hdiv, ← mul_assoc]
      split_ifs
      · exact ih (isCoefficients_multiplyLinear h hq (by omega)) (hfactor _ _) (by omega)
      · exact ih (isCoefficients_multiplyLinear h hq (by omega)) (hfactor _ _) (by omega)

/-- The prover's coefficients are those of the verifier's exponents. -/
theorem isCoefficients_coefficients (aj : List.Vector Scalar m) (i : ℕ) :
    IsCoefficients (coefficients index aj i) (bitPolynomial (openings index 0 aj.toList) i) := by
  have hone : IsCoefficients ((List.replicate (m + 1) (0 : Scalar)).set 0 1) 1 := by
    intro k
    rw [getD_set (by simp), coeff_one]
    by_cases hk : k < m + 1
    · simp [List.getD_eq_getElem?_getD, hk]
    · simp [List.getD_eq_getElem?_getD, hk]
  have hall : IsCoefficients (coefficients index aj i)
      (1 * bitPolynomial (openings index 0 aj.toList) (i / 2 ^ 0)) :=
    isCoefficients_multiplyBits hone (by simp) (by simp)
  rwa [one_mul, pow_zero, Nat.div_one] at hall

end Coefficients

section Honest

variable {V : Type} [AddCommGroup V] [Module Scalar V] {P : Primitives V} {m index : ℕ}
  {d : List V} {nonces : Nonces m} {x r : Scalar}

theorem openings_getElem? {as : List Scalar} {j : ℕ} (k : ℕ) :
    (openings index j as)[k]? = as[k]?.map fun a => (bitScalar index (j + k), a) := by
  induction as generalizing j k with
  | nil => rfl
  | cons a as ih =>
      cases k with
      | zero => rfl
      | succ k =>
          rw [openings, List.getElem?_cons_succ, List.getElem?_cons_succ, ih, Nat.add_right_comm]
          rfl

/-- The responses `f_j` are the values `l_j·x + a_j`. -/
theorem responses_fj : (responses x r index nonces).fj.toList =
    (openings index 0 nonces.aj.toList).map fun p => p.1 * x + p.2 := by
  refine List.ext_getElem? fun k => ?_
  rw [List.getElem?_map, openings_getElem?, Option.map_map, zero_add]
  simp only [responses, List.Vector.toList_ofFn]
  by_cases hk : k < m
  · simp [hk, List.Vector.get_eq_get_toList]
  · simp [hk]

/-- The commitments to the bits satisfy both checks. -/
theorem bitChecks_honest (j : Fin m) :
    bitChecks P x (firstMessage P index d nonces) (responses x r index nonces) j := by
  simp only [bitChecks, firstMessage, responses, List.Vector.get_ofFn]
  constructor
  · module
  · rw [bitScalar_eq]
    split_ifs
    · module
    · module

theorem firstMessage_gk (k : Fin m) : (firstMessage P index d nonces).gk.get k =
    ∑ i : Fin d.length, (bitPolynomial (openings index 0 nonces.aj.toList) i).coeff k • d.get i
      + nonces.rho.get k • generatorH P := by
  have hcoeff (i : ℕ) : IsCoefficients (coefficients index nonces.aj i) _ :=
    isCoefficients_coefficients nonces.aj i
  rw [firstMessage, List.Vector.get_ofFn, multiscalarMul_append (by simp),
    multiscalarMul_eq_sum _ _ (by simp)]
  congr 1
  · refine Finset.sum_congr rfl fun i _ => ?_
    rw [← hcoeff i k]
    simp [List.getD_eq_getElem?_getD]
  · simp [multiscalarMul]

theorem lastResponse_eq (rho : List.Vector Scalar m) :
    lastResponse x r rho = r * x ^ m - ∑ k : Fin m, x ^ (k : ℕ) * rho.get k := by
  have hpow (k : ℕ) : (List.range k).foldl (fun xm _ => xm * x) 1 = x ^ k := by
    induction k with
    | zero => rfl
    | succ k ih => rw [List.range_succ, List.foldl_append, ih, List.foldl_cons, List.foldl_nil,
        pow_succ]
  have hsum (l : List Scalar) (zd xk : Scalar) :
      (l.foldl (fun acc ρ => (acc.1 - ρ * acc.2, acc.2 * x)) (zd, xk)).1 =
        zd - ∑ k : Fin l.length, xk * x ^ (k : ℕ) * l.get k := by
    induction l generalizing zd xk with
    | nil => simp
    | cons ρ l ih =>
        have hsplit : ∑ k : Fin (ρ :: l).length, xk * x ^ (k : ℕ) * (ρ :: l).get k =
            ρ * xk + ∑ k : Fin l.length, xk * x * x ^ (k : ℕ) * l.get k := by
          refine (Fin.sum_univ_succ (n := l.length) _).trans ?_
          congr 1
          · simp [mul_comm]
          · refine Finset.sum_congr rfl fun k _ => ?_
            have hget : (ρ :: l).get k.succ = l.get k := rfl
            rw [hget, Fin.val_succ, pow_succ', ← mul_assoc xk]
        rw [List.foldl_cons, ih, hsplit, sub_sub]
  obtain ⟨l, rfl⟩ := rho
  simp only [lastResponse, hpow, List.Vector.toList, hsum, one_mul]
  rfl

/-- The membership sum of the honest messages: its coefficients below the top are
multiples of `H`, and the top one is the difference that the blinding opens. -/
theorem membershipCheck_honest (hd : d.length = 2 ^ m) (hindex : index < 2 ^ m)
    (hopen : d[index]? = some (r • generatorH P)) :
    membershipCheck P x d (firstMessage P index d nonces) (responses x r index nonces) := by
  have hlen : (openings index 0 nonces.aj.toList).length = m := by simp
  have hlow (k : Fin m) : membershipCoeff (openings index 0 nonces.aj.toList) d
      (firstMessage P index d nonces).gk k.castSucc = -(nonces.rho.get k • generatorH P) := by
    rw [membershipCoeff, Fin.val_castSucc, dif_pos k.isLt, firstMessage_gk]
    abel
  have htop : membershipCoeff (openings index 0 nonces.aj.toList) d
      (firstMessage P index d nonces).gk (Fin.last m) = r • generatorH P := by
    have hbit : bitIndex (openings index 0 nonces.aj.toList) = index := by
      rw [bitIndex_openings, pow_zero, Nat.div_one, List.Vector.toList_length,
        Nat.mod_eq_of_lt hindex]
    rw [membershipCoeff_last hlen (fun p hp => openings_bit hp) hd, List.get_eq_getElem]
    obtain ⟨hlt, hget⟩ := List.getElem?_eq_some_iff.1 hopen
    simpa only [hbit] using hget
  rw [membershipCheck, membershipSum_eq x _ hd, responses_fj, ← sum_membershipCoeff hlen,
    Fin.sum_univ_castSucc, htop]
  simp only [hlow, Fin.val_castSucc, Fin.val_last, responses, lastResponse_eq]
  rw [sub_smul, Finset.sum_smul, sub_eq_add_neg, add_comm, ← Finset.sum_neg_distrib]
  congr 1
  · rw [smul_smul, mul_comm]
  · exact Finset.sum_congr rfl fun k _ => by rw [smul_neg, smul_smul]

/-- The honest messages are accepted for every choice of nonces and every
challenge. -/
theorem verifyEquations_honest (hd : d.length = 2 ^ m) (hindex : index < 2 ^ m)
    (hopen : d[index]? = some (r • generatorH P)) :
    verifyEquations P x d (firstMessage P index d nonces) (responses x r index nonces) :=
  ⟨bitChecks_honest, membershipCheck_honest hd hindex hopen⟩

end Honest

section Bytes

variable {α : Type} {write : α → U8Array 32} {read : U8Array 32 → Option α} {m offset : ℕ}
  {bytes rest : List UInt8}

/-- Values that are written one after the other are read back. -/
theorem readMany_writeMany (hread : ∀ a, read (write a) = some a) (v : List.Vector α m)
    (h : bytes.drop offset = writeMany write v ++ rest) :
    readMany (fun offset => read (sliceAt 32 bytes offset)) m offset = some v ∧
      bytes.drop (offset + 32 * m) = rest := by
  induction m generalizing offset with
  | zero =>
      rw [v.eq_nil] at h ⊢
      exact ⟨rfl, h⟩
  | succ m ih =>
      obtain ⟨a, as, rfl⟩ := v.exists_eq_cons
      have hcons : writeMany write (a ::ᵥ as) ++ rest =
          (write a).toList ++ (writeMany write as ++ rest) := by
        rw [writeMany, List.Vector.toList_cons, List.flatMap_cons, List.append_assoc, writeMany]
      rw [hcons] at h
      have hnext : bytes.drop (offset + 32) = writeMany write as ++ rest := by
        rw [← List.drop_drop, h]
        exact List.drop_left' (write a).toList_length
      obtain ⟨hall, hrest⟩ := ih as hnext
      refine ⟨?_, ?_⟩
      · rw [readMany, sliceAt_eq h, hread, hall]
        rfl
      · rw [← hrest]
        congr 1
        omega

theorem length_writeMany (v : List.Vector α m) : (writeMany write v).length = 32 * m := by
  rw [writeMany, List.length_flatMap]
  simp [mul_comm]

end Bytes

section Wire

variable {V : Type} [AddCommGroup V] [Module Scalar V] {P : Primitives V}
  {coins : List (U8Array 32)} {serial change : U8Array 32} {price : UInt64} {context : List UInt8}
  {d : List V}

omit [AddCommGroup V] [Module Scalar V] in
theorem length_serialize {m : ℕ} (msg : FirstMessage V m) (rsp : Response m) :
    (serialize P msg rsp).length = 1 + (7 * m + 1) * 32 := by
  simp only [serialize, List.length_cons, List.length_append, length_writeMany,
    List.Vector.toList_length]
  omega

/-- The verifier reads what the prover has written. -/
theorem verify_serialize [DecidableEq V] (hpoint : ∀ p, P.decompress (P.compress p) = some p)
    (htwo : 2 ≤ coins.length) (hpow : coins.length = 2 ^ coins.length.log2)
    (hsize : coins.length < 2 ^ 64) (hd : dSet P coins serial price change = some d)
    (msg : FirstMessage V coins.length.log2) (rsp : Response coins.length.log2) :
    verify P (serialize P msg rsp) coins serial price change context =
      decide (verifyEquations P
        (fsChallenge P (groupHash P coins) serial price change context msg) d msg rsp) := by
  have hbound : coins.length.log2 < 64 := (Nat.log2_lt (by omega)).2 hsize
  have hhead : (serialize P msg rsp).head?.map UInt8.toNat = some coins.length.log2 := by
    have hbyte : (UInt8.ofNat coins.length.log2).toNat = coins.length.log2 := by
      rw [UInt8.toNat_ofNat']
      exact Nat.mod_eq_of_lt (by omega)
    exact congrArg some hbyte
  have hscalar := Scalar.fromCanonicalBytes_toBytes
  -- each list starts where the one before it ends
  obtain ⟨hcl, h₁⟩ := @readMany_writeMany _ _ _ _ 1 (serialize P msg rsp) _ hpoint msg.cl rfl
  obtain ⟨hca, h₂⟩ := readMany_writeMany hpoint msg.ca h₁
  obtain ⟨hcb, h₃⟩ := readMany_writeMany hpoint msg.cb h₂
  obtain ⟨hgk, h₄⟩ := readMany_writeMany hpoint msg.gk h₃
  obtain ⟨hfj, h₅⟩ := readMany_writeMany hscalar rsp.fj h₄
  obtain ⟨hzaj, h₆⟩ := readMany_writeMany hscalar rsp.zaj h₅
  obtain ⟨hzbj, h₇⟩ := readMany_writeMany hscalar rsp.zbj h₆
  have hzd := sliceAt_eq (h₇.trans (List.append_nil _).symm)
  simp only [Nat.add_assoc, ← Nat.add_mul, Nat.reduceAdd] at hca hcb hgk hfj hzaj hzbj hzd
  have hlength := length_serialize (P := P) msg rsp
  simp only [verify, hlength, hhead, hcl, hca, hcb, hgk, hfj, hzaj, hzbj, hzd, hscalar, hd, htwo,
    ← hpow, and_self, guard_true, Option.bind_eq_bind, Option.bind_some, Option.pure_def,
    Option.getD_some]

end Wire

section Prove

variable {V : Type} [AddCommGroup V] [Module Scalar V] [DecidableEq V] {P : Primitives V}
  {coins : List (U8Array 32)} {index : ℕ} {serial change blinding seed : U8Array 32}
  {price : UInt64} {context proof : List UInt8}

theorem prove_eq_some :
    prove P coins index serial price change blinding context seed = some proof ↔
      (2 ≤ coins.length ∧ coins.length = 2 ^ coins.length.log2 ∧ index < coins.length) ∧
      ∃ d, dSet P coins serial price change = some d ∧
        d[index]? = some (Scalar.fromBytesModOrder blinding • generatorH P) ∧
        serialize P
          (firstMessage P index d (sampleNonces P coins.length.log2 (.new seed)))
          (responses
            (fsChallenge P (groupHash P coins) serial price change context
              (firstMessage P index d (sampleNonces P coins.length.log2 (.new seed))))
            (Scalar.fromBytesModOrder blinding) index
            (sampleNonces P coins.length.log2 (.new seed))) = proof := by
  simp only [prove, Option.bind_eq_bind, Option.bind_eq_some_iff, Option.guard_eq_some',
    Option.pure_def, Option.some.injEq, exists_and_left, exists_const]

/-- The prover answers exactly for a group of a power of two of coins that decode and an
index in it whose difference the blinding opens. -/
theorem isSome_prove_iff :
    (prove P coins index serial price change blinding context seed).isSome ↔
      (∃ m, 1 ≤ m ∧ coins.length = 2 ^ m) ∧ index < coins.length ∧
      (∀ coin ∈ coins, (P.decompress coin).isSome) ∧
      ∃ c ch, coins[index]?.bind P.decompress = some c ∧ P.decompress change = some ch ∧
        c - Scalar.fromBytesModOrder serial • generatorG1 P - Scalar.ofU64 price • P.basepoint
          - ch = Scalar.fromBytesModOrder blinding • generatorH P := by
  have hoffset (c ch : V) : c - Scalar.fromBytesModOrder serial • generatorG1 P
      - Scalar.ofU64 price • P.basepoint - ch = c - spendOffset P serial price ch := by
    unfold spendOffset
    abel
  rw [Option.isSome_iff_exists]
  simp only [prove_eq_some, hoffset]
  constructor
  · rintro ⟨proof, ⟨htwo, hpow, hindex⟩, d, hd, hopen, -⟩
    obtain ⟨ch, hch, -⟩ := dSet_eq_some.1 hd
    rw [getElem?_dSet hch hd] at hopen
    obtain ⟨c, hc, hdiff⟩ := Option.map_eq_some_iff.1 hopen
    refine ⟨⟨coins.length.log2, ?_, hpow⟩, hindex, (exists_dSet hch).1 ⟨d, hd⟩, c, ch, hc, hch,
      hdiff⟩
    exact (Nat.le_log2 (by omega)).2 htwo
  · rintro ⟨⟨m, hm, hpow⟩, hindex, hdec, c, ch, hc, hch, hdiff⟩
    have hlog : coins.length.log2 = m := by rw [hpow, Nat.log2_two_pow]
    have htwo : 2 ≤ coins.length := hpow ▸ Nat.le_self_pow (by omega) 2
    obtain ⟨d, hd⟩ := (exists_dSet hch).2 hdec
    refine ⟨_, ⟨htwo, by rw [hlog, hpow], hindex⟩, d, hd, ?_, rfl⟩
    rw [getElem?_dSet hch hd, hc, Option.map_some, hdiff]

/-- Every proof that the prover returns is accepted, and the prover answers exactly when
its inputs open a coin of the group. The length of a group is a `usize`. -/
theorem one_of_many_complete (hpoint : ∀ p, P.decompress (P.compress p) = some p)
    (coins : List (U8Array 32)) (hsize : coins.length < 2 ^ 64) (index : ℕ) (serial : U8Array 32)
    (price : UInt64) (change blinding : U8Array 32) (context : List UInt8) (seed : U8Array 32) :
    (∀ proof, prove P coins index serial price change blinding context seed = some proof →
        verify P proof coins serial price change context = true) ∧
      ((prove P coins index serial price change blinding context seed).isSome ↔
        (∃ m, 1 ≤ m ∧ coins.length = 2 ^ m) ∧ index < coins.length ∧
        (∀ coin ∈ coins, (P.decompress coin).isSome) ∧
        ∃ c ch, coins[index]?.bind P.decompress = some c ∧ P.decompress change = some ch ∧
          c - Scalar.fromBytesModOrder serial • generatorG1 P
            - Scalar.ofU64 price • P.basepoint - ch =
              Scalar.fromBytesModOrder blinding • generatorH P) := by
  refine ⟨fun proof hproof => ?_, isSome_prove_iff⟩
  obtain ⟨⟨htwo, hpow, hindex⟩, d, hd, hopen, rfl⟩ := prove_eq_some.1 hproof
  rw [verify_serialize hpoint htwo hpow hsize hd]
  exact decide_eq_true
    (verifyEquations_honest ((dSet_length hd).trans hpow) (hpow ▸ hindex) hopen)

end Prove

section Example

/-- Points as scalars, encoded canonically; the three generators are different
points. -/
def scalarPrimitives : Primitives Scalar where
  basepoint := 1
  decompress := Scalar.fromCanonicalBytes
  compress := Scalar.toBytes
  fromUniformBytes := Scalar.fromBytesModOrderWide
  sha512 := U8Array.padded 64
  blake2b512 := U8Array.padded 64
  challengeBytes _ _ := U8Array.zero 64
  verifyMultiple _ _ _ _ _ _ _ := false

theorem scalar_decompress (b : U8Array 32) :
    scalarPrimitives.decompress b = Scalar.fromCanonicalBytes b := rfl

theorem scalar_compress (p : Scalar) : scalarPrimitives.compress p = Scalar.toBytes p := rfl

theorem scalar_decompress_compress (p : Scalar) :
    scalarPrimitives.decompress (scalarPrimitives.compress p) = some p := by
  rw [scalar_decompress, scalar_compress, Scalar.fromCanonicalBytes_toBytes]

/-- Two coins of value 3 with different serials. -/
def twoCoins : List (U8Array 32) :=
  [coinCommit scalarPrimitives (U8Array.ofNat 32 4) 3 (U8Array.ofNat 32 8),
    coinCommit scalarPrimitives (U8Array.ofNat 32 5) 3 (U8Array.ofNat 32 9)]

/-- The second coin is spent at its full value. -/
theorem one_of_many_complete_pair :
    ∃ proof,
      prove scalarPrimitives twoCoins 1 (U8Array.ofNat 32 5) 3 (U8Array.zero 32)
        (U8Array.ofNat 32 9) [] (U8Array.ofNat 32 42) = some proof ∧
      verify scalarPrimitives proof twoCoins (U8Array.ofNat 32 5) 3 (U8Array.zero 32) [] =
        true := by
  have hzero : scalarPrimitives.decompress (U8Array.zero 32) = some 0 := by
    have hbytes : Scalar.toBytes 0 = U8Array.zero 32 := by decide
    rw [← hbytes, scalar_decompress, Scalar.fromCanonicalBytes_toBytes]
  obtain ⟨haccept, hanswer⟩ := one_of_many_complete scalar_decompress_compress twoCoins
    (by decide) 1 (U8Array.ofNat 32 5) 3 (U8Array.zero 32) (U8Array.ofNat 32 9) []
    (U8Array.ofNat 32 42)
  have hdecode (coin : U8Array 32) (hcoin : coin ∈ twoCoins) :
      (scalarPrimitives.decompress coin).isSome := by
    simp only [twoCoins, List.mem_cons, List.not_mem_nil, or_false] at hcoin
    rcases hcoin with rfl | rfl
    · rw [coinCommit, scalar_decompress_compress]
      rfl
    · rw [coinCommit, scalar_decompress_compress]
      rfl
  have hprove := hanswer.2 ⟨⟨1, le_rfl, rfl⟩, by decide, hdecode, _, 0,
    scalar_decompress_compress _, hzero, by abel⟩
  obtain ⟨proof, hproof⟩ := Option.isSome_iff_exists.1 hprove
  exact ⟨proof, hproof, haccept proof hproof⟩

end Example

end NullaRelay.ScanProof.OneOfMany
