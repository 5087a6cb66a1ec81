import Mathlib.Tactic.LinearCombination
import NullaRelay.Foundations.WitnessHiding
import NullaRelay.ScanProof.Completeness

/-!
# A one-of-many proof hides its coin

In a group of prime order every point is a multiple of `H`, so that every coin of a group
has a blinding that opens its difference. For each challenge a bijection of the nonces
takes the transcripts of a prover of one coin to those of the prover of another: what the
bits of the index change, the nonces absorb. Uniform nonces therefore give the same
distribution of proofs for all coins of the group. The code draws its nonces from a seed
by hashing, which stands here for drawing them uniformly.
-/

namespace NullaRelay.ScanProof.OneOfMany

open Verifier LittleEndian Polynomial WitnessHiding

variable {V : Type} [AddCommGroup V] [Module Scalar V] {P : Primitives V} {m : ℕ}
  {d : List V} {index index' : ℕ} {x r r' : Scalar} {nonces : Nonces m}

/-- Every point is a multiple of `H`, which is not the identity. -/
structure PrimeOrder (P : Primitives V) : Prop where
  generates : ∀ p : V, ∃ k : Scalar, p = k • generatorH P
  ne_zero : generatorH P ≠ 0

theorem PrimeOrder.smul_inj (h : PrimeOrder P) {a b : Scalar}
    (heq : a • generatorH P = b • generatorH P) : a = b :=
  smul_left_injective Scalar h.ne_zero heq

theorem bitScalar_mul_self (index j : ℕ) :
    bitScalar index j * bitScalar index j = bitScalar index j := by
  rw [bitScalar_eq]
  split_ifs
  · exact one_mul 1
  · exact zero_mul 0

/-- How the bits of two indices differ. -/
def bitGap (index index' j : ℕ) : Scalar := bitScalar index j - bitScalar index' j

theorem bitGap_swap (index index' j : ℕ) : bitGap index' index j = -bitGap index index' j := by
  rw [bitGap, bitGap, neg_sub]

/-- The nonces that make a proof for `index` one for `index'`: `G` is `g·H`, and the
differences of the coins are the multiples `δ` of `H`. -/
def moveNonces (g : Scalar) {n : ℕ} (δ : Fin n → Scalar) (x : Scalar) (index index' : ℕ)
    (nonces : Nonces m) : Nonces m :=
  let gap (j : Fin m) := bitGap index index' j
  let aj : List.Vector Scalar m := .ofFn fun j => nonces.aj.get j + gap j * x
  { rj := .ofFn fun j => nonces.rj.get j + gap j * g
    aj
    sj := .ofFn fun j => nonces.sj.get j - gap j * g * x
    tj := .ofFn fun j =>
      nonces.tj.get j - gap j * g * (x - (bitScalar index j * x + nonces.aj.get j))
    rho := .ofFn fun k => nonces.rho.get k + ∑ i : Fin n,
      ((coefficients index nonces.aj i).getD k 0 - (coefficients index' aj i).getD k 0) * δ i }

variable {g : Scalar} {n : ℕ} {δ : Fin n → Scalar}

/-- Moving back gives the nonces back. -/
theorem moveNonces_moveNonces (nonces : Nonces m) :
    moveNonces g δ x index' index (moveNonces g δ x index index' nonces) = nonces := by
  obtain ⟨rj, aj, sj, tj, rho⟩ := nonces
  have haj : List.Vector.ofFn (fun j : Fin m => (List.Vector.ofFn fun j : Fin m =>
      aj.get j + bitGap index index' j * x).get j + bitGap index' index j * x) = aj := by
    refine List.Vector.ext fun j => ?_
    rw [List.Vector.get_ofFn, List.Vector.get_ofFn, bitGap_swap]
    ring
  simp only [moveNonces, haj, Nonces.mk.injEq, true_and]
  refine ⟨?_, ?_, ?_, ?_⟩
  all_goals refine List.Vector.ext fun j => ?_
  · rw [List.Vector.get_ofFn, List.Vector.get_ofFn, bitGap_swap]
    ring
  · rw [List.Vector.get_ofFn, List.Vector.get_ofFn, bitGap_swap]
    ring
  · rw [List.Vector.get_ofFn, List.Vector.get_ofFn, List.Vector.get_ofFn, bitGap_swap, bitGap]
    ring
  · rw [List.Vector.get_ofFn, List.Vector.get_ofFn, add_assoc, ← Finset.sum_add_distrib,
      Finset.sum_eq_zero fun i _ => by ring, add_zero]

/-- The nonces of the one index and of the other. -/
def nonceEquiv (g : Scalar) {n : ℕ} (δ : Fin n → Scalar) (x : Scalar) (index index' : ℕ) :
    Nonces m ≃ Nonces m where
  toFun := moveNonces g δ x index index'
  invFun := moveNonces g δ x index' index
  left_inv := moveNonces_moveNonces
  right_inv := moveNonces_moveNonces

/-- The products of the bits and the nonces, over `H`. -/
theorem product_moveNonces (t a : Scalar) (j : ℕ) :
    bitScalar index' j * (a + bitGap index index' j * x) * g +
        (t - bitGap index index' j * g * (x - (bitScalar index j * x + a))) =
      bitScalar index j * a * g + t := by
  have hl := bitScalar_mul_self index j
  have hl' := bitScalar_mul_self index' j
  rw [bitGap]
  linear_combination (x * g) * hl - (x * g) * hl'

/-- The first message does not change. -/
theorem firstMessage_moveNonces (hg : P.basepoint = g • generatorH P)
    {δ : Fin d.length → Scalar} (hδ : ∀ i, d.get i = δ i • generatorH P) :
    firstMessage P index' d (moveNonces g δ x index index' nonces) =
      firstMessage P index d nonces := by
  have hgk (k : Fin m) : (firstMessage P index' d (moveNonces g δ x index index' nonces)).gk.get k =
      (firstMessage P index d nonces).gk.get k := by
    have hcoeff (i j : ℕ) (aj : List.Vector Scalar m) (k : ℕ) :
        (coefficients i aj j).getD k 0 = (bitPolynomial (openings i 0 aj.toList) j).coeff k :=
      isCoefficients_coefficients aj j k
    rw [firstMessage_gk, firstMessage_gk]
    simp only [moveNonces, List.Vector.get_ofFn, hcoeff, hδ]
    rw [add_smul, Finset.sum_smul, add_comm (nonces.rho.get k • _), ← add_assoc,
      ← Finset.sum_add_distrib]
    congr 1
    exact Finset.sum_congr rfl fun i _ => by module
  have hgk := List.Vector.ext hgk
  simp only [firstMessage, FirstMessage.mk.injEq] at hgk ⊢
  refine ⟨?_, ?_, ?_, hgk⟩
  all_goals
    refine congrArg List.Vector.ofFn (funext fun j => ?_)
    simp only [moveNonces, List.Vector.get_ofFn, hg]
  · rw [bitGap]
    module
  · module
  · rw [smul_smul, smul_smul, ← add_smul, ← add_smul, product_moveNonces]

/-- The first message, the challenge and the answers for the bits leave no choice for the
other answers. -/
theorem response_unique (hP : PrimeOrder P) {msg : FirstMessage V m} {rsp rsp' : Response m}
    (h : verifyEquations P x d msg rsp) (h' : verifyEquations P x d msg rsp')
    (hfj : rsp.fj = rsp'.fj) : rsp = rsp' := by
  have hbits (j : Fin m) : rsp.zaj.get j = rsp'.zaj.get j ∧ rsp.zbj.get j = rsp'.zbj.get j := by
    obtain ⟨ha, hb⟩ := h.1 j
    obtain ⟨ha', hb'⟩ := h'.1 j
    rw [hfj] at ha hb
    exact ⟨hP.smul_inj (add_left_cancel (ha.symm.trans ha')), hP.smul_inj (hb.symm.trans hb')⟩
  have hzaj : rsp.zaj = rsp'.zaj := List.Vector.ext fun j => (hbits j).1
  have hzbj : rsp.zbj = rsp'.zbj := List.Vector.ext fun j => (hbits j).2
  have hzd : rsp.zd = rsp'.zd := by
    have hmember := h.2
    rw [membershipCheck, hfj] at hmember
    exact hP.smul_inj (hmember.symm.trans h'.2)
  cases rsp
  cases rsp'
  cases hfj
  cases hzaj
  cases hzbj
  cases hzd
  rfl

/-- The honest answers of the other prover are the same. -/
theorem responses_moveNonces (hP : PrimeOrder P) (hg : P.basepoint = g • generatorH P)
    {δ : Fin d.length → Scalar} (hδ : ∀ i, d.get i = δ i • generatorH P) (hd : d.length = 2 ^ m)
    (hindex : index < 2 ^ m) (hopen : d[index]? = some (r • generatorH P))
    (hindex' : index' < 2 ^ m) (hopen' : d[index']? = some (r' • generatorH P)) :
    responses x r' index' (moveNonces g δ x index index' nonces) =
      responses x r index nonces := by
  have h : verifyEquations P x d (firstMessage P index d nonces) (responses x r index nonces) :=
    verifyEquations_honest hd hindex hopen
  have h' : verifyEquations P x d
      (firstMessage P index' d (moveNonces g δ x index index' nonces))
      (responses x r' index' (moveNonces g δ x index index' nonces)) :=
    verifyEquations_honest hd hindex' hopen'
  rw [firstMessage_moveNonces hg hδ] at h'
  refine response_unique hP h' h ?_
  refine congrArg List.Vector.ofFn (funext fun j => ?_)
  simp only [moveNonces, List.Vector.get_ofFn, bitGap]
  ring

variable (P) in
/-- The prover of a coin, over its nonces. -/
def coinProver (d : List V) (index : ℕ) (r : Scalar) :
    Prover (Nonces m) (FirstMessage V m) Scalar (Response m) where
  first := firstMessage P index d
  answer x := responses x r index

/-- The provers of two coins of a group are not told apart. -/
theorem coinProver_sameTranscripts (hP : PrimeOrder P) (hd : d.length = 2 ^ m)
    (hindex : index < 2 ^ m) (hopen : d[index]? = some (r • generatorH P))
    (hindex' : index' < 2 ^ m) (hopen' : d[index']? = some (r' • generatorH P)) :
    SameTranscripts (coinProver P (m := m) d index r) (coinProver P d index' r') := by
  obtain ⟨g, hg⟩ := hP.generates P.basepoint
  choose δ hδ using fun i : Fin d.length => hP.generates (d.get i)
  exact fun x => ⟨nonceEquiv g δ x index index', fun nonces =>
    ⟨firstMessage_moveNonces hg hδ, responses_moveNonces hP hg hδ hd hindex hopen hindex' hopen'⟩⟩

section Proofs

variable {coins : List (U8Array 32)} {serial change : U8Array 32} {price : UInt64}
  {context : List UInt8}

variable (P) in
/-- The bytes of a proof, for given nonces. -/
def proofOf (coins : List (U8Array 32)) (serial : U8Array 32) (price : UInt64)
    (change : U8Array 32) (context : List UInt8) (d : List V) (index : ℕ) (r : Scalar)
    (nonces : Nonces m) : List UInt8 :=
  let (msg, rsp) := (coinProver P d index r).transcript
    (fsChallenge P (groupHash P coins) serial price change context) nonces
  serialize P msg rsp

/-- The prover writes the proof of the nonces that it draws. -/
theorem prove_eq_proofOf [DecidableEq V] (htwo : 2 ≤ coins.length)
    (hpow : coins.length = 2 ^ coins.length.log2) (hd : dSet P coins serial price change = some d)
    (hindex : index < coins.length) (hopen : d[index]? = some (r • generatorH P))
    (seed : U8Array 32) :
    prove P coins index serial price change r.toBytes context seed =
      some (proofOf P coins serial price change context d index r
        (sampleNonces P coins.length.log2 (.new seed))) := by
  refine prove_eq_some.2 ⟨⟨htwo, hpow, hindex⟩, d, hd, ?_, ?_⟩
  · rw [Scalar.fromBytesModOrder_toBytes]
    exact hopen
  · rw [Scalar.fromBytesModOrder_toBytes]
    rfl

/-- For every coin of the group there is a blinding with which the prover writes the same
proofs, up to a bijection of its nonces: a proof for uniform nonces tells nothing about
which coin is spent. -/
theorem one_of_many_hides_coin [DecidableEq V] (hP : PrimeOrder P) (htwo : 2 ≤ coins.length)
    (hpow : coins.length = 2 ^ coins.length.log2) (hd : dSet P coins serial price change = some d)
    (hindex : index < coins.length) (hopen : d[index]? = some (r • generatorH P))
    (hindex' : index' < coins.length) (context : List UInt8) :
    (∀ seed, prove P coins index serial price change r.toBytes context seed =
      some (proofOf P coins serial price change context d index r
        (sampleNonces P coins.length.log2 (.new seed)))) ∧
    ∃ r' : Scalar, d[index']? = some (r' • generatorH P) ∧
      (∀ seed, prove P coins index' serial price change r'.toBytes context seed =
        some (proofOf P coins serial price change context d index' r'
          (sampleNonces P coins.length.log2 (.new seed)))) ∧
      ∃ e : Nonces coins.length.log2 ≃ Nonces coins.length.log2, ∀ nonces,
        proofOf P coins serial price change context d index' r' (e nonces) =
          proofOf P coins serial price change context d index r nonces := by
  have hlen := dSet_length hd
  obtain ⟨p, hget⟩ : ∃ p, d[index']? = some p := ⟨_, List.getElem?_eq_getElem (by omega)⟩
  obtain ⟨r', rfl⟩ := hP.generates p
  obtain ⟨e, he⟩ := (coinProver_sameTranscripts hP (hlen.trans hpow) (hpow ▸ hindex) hopen
    (hpow ▸ hindex') hget).computed
      (fsChallenge P (groupHash P coins) serial price change context)
  refine ⟨prove_eq_proofOf htwo hpow hd hindex hopen, r', hget,
    prove_eq_proofOf htwo hpow hd hindex' hget, e, fun nonces => ?_⟩
  rw [proofOf, he]
  rfl

/-- Of two coins, one is spent, and the proofs are those for the other. -/
theorem twoCoins_hidden : ∃ r' : Scalar, ∃ d,
    dSet scalarPrimitives twoCoins (U8Array.ofNat 32 5) 3 (U8Array.zero 32) = some d ∧
    ∃ e : Nonces 1 ≃ Nonces 1, ∀ nonces,
      proofOf scalarPrimitives twoCoins (U8Array.ofNat 32 5) 3 (U8Array.zero 32) [] d 0 r'
          (e nonces) =
        proofOf scalarPrimitives twoCoins (U8Array.ofNat 32 5) 3 (U8Array.zero 32) [] d 1 9
          nonces := by
  have hH : generatorH scalarPrimitives ≠ 0 := by decide +kernel
  have hP : PrimeOrder scalarPrimitives :=
    ⟨fun p => ⟨p / generatorH scalarPrimitives, (div_mul_cancel₀ p hH).symm⟩, hH⟩
  have hbytes : Scalar.toBytes 0 = U8Array.zero 32 := by decide
  have hzero : scalarPrimitives.decompress (U8Array.zero 32) = some 0 := by
    rw [← hbytes, scalar_decompress, Scalar.fromCanonicalBytes_toBytes]
  have hdecode (coin : U8Array 32) (hcoin : coin ∈ twoCoins) :
      (scalarPrimitives.decompress coin).isSome := by
    simp only [twoCoins, List.mem_cons, List.not_mem_nil, or_false] at hcoin
    rcases hcoin with rfl | rfl
    · rw [coinCommit, scalar_decompress_compress]
      rfl
    · rw [coinCommit, scalar_decompress_compress]
      rfl
  obtain ⟨d, hd⟩ : ∃ d,
      dSet scalarPrimitives twoCoins (U8Array.ofNat 32 5) 3 (U8Array.zero 32) = some d :=
    (exists_dSet hzero).2 hdecode
  have hopen : d[1]? = some ((9 : Scalar) • generatorH scalarPrimitives) := by
    rw [getElem?_dSet hzero hd]
    decide +kernel
  have hfirst : 0 < twoCoins.length := by decide
  obtain ⟨-, r', -, -, e, he⟩ := one_of_many_hides_coin hP (by decide) (by decide) hd (by decide)
    hopen hfirst []
  exact ⟨r', d, hd, e, he⟩

end Proofs

end NullaRelay.ScanProof.OneOfMany
