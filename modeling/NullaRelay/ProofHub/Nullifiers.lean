import NullaRelay.ProofHub.Accepting

/-!
# Nullifiers of the v2 lane

A v2 spend marks the 32 bytes of its nullifier; the circuit reads them as two
field elements, each reduced modulo the field. Bytes that differ by the modulus
are one nullifier for the circuit and two keys for the guard. Among canonical
byte strings no pair of elements is spent twice.
-/

namespace NullaRelay.ProofHub

open NullaRelay.Frame V2 Transition LittleEndian

variable {A L : Type} {T : Config A L} {s s' : State L} {x : Extrinsic A}

/-- The nullifier that a v2 spend carries. -/
def Call.v2Nullifier : Call → Option (U8Array 32)
  | .purchaseRwaV2 _ pi _ | .purchaseAccessV2 _ pi _ =>
      (SpendPublicV2.decode pi).map SpendPublicV2.nullifier
  | .withdrawV2 _ pi _ => (WithdrawPublicV2.decode pi).map WithdrawPublicV2.nullifier
  | _ => none

/-- The nullifier's bytes are those that its two elements pack to. -/
def CanonicalNullifier (call : Call) : Prop := ∀ n ∈ call.v2Nullifier, packPair (unpack n) = n

/-- The two spends carry different pairs of field elements. -/
def DistinctNullifiers (e e' : State L × Extrinsic A) : Prop :=
  ∀ n ∈ e.2.2.v2Nullifier, ∀ n' ∈ e'.2.2.v2Nullifier, unpack n ≠ unpack n'

theorem nullifier_of_v2Nullifier {call : Call} {n : U8Array 32} (hn : call.v2Nullifier = some n) :
    (call.footprint s).nullifier = some n := by
  cases call with
  | purchaseRwaV2 auth pi p | purchaseAccessV2 auth pi p | withdrawV2 auth pi p =>
      obtain ⟨inputs, hdec, rfl⟩ := Option.map_eq_some_iff.1 hn
      rw [Call.footprint, hdec]
      rfl
  | _ => cases hn

/-- The pairs of field elements are one-time keys, as long as nullifiers are
canonical. -/
theorem nullifier_keyGuard (T : Config A L) :
    KeyGuard (apply T) (fun _ x => CanonicalNullifier x.2)
      (fun _ x => (x.2.v2Nullifier.map unpack).toList)
      (fun s k => s.nullifierUsed (packPair k) = true) where
  nodup s x s' _ _ := by cases x.2.v2Nullifier <;> simp
  fresh s x s' hcanon h k hk := by
    obtain ⟨n, hn, rfl⟩ : ∃ n, x.2.v2Nullifier = some n ∧ unpack n = k := by simpa using hk
    rw [hcanon n hn]
    simpa using nullifier_fresh h (nullifier_of_v2Nullifier hn)
  marked s x s' hcanon h k hk := by
    obtain ⟨n, hn, rfl⟩ : ∃ n, x.2.v2Nullifier = some n ∧ unpack n = k := by simpa using hk
    rw [hcanon n hn]
    exact nullifierUsed_of_nullifier (effect_of_apply h) (nullifier_of_v2Nullifier hn)
  kept s x s' k h hk := nullifierUsed_mono (effect_of_apply h) hk

/-- In every run whose v2 spends carry canonical nullifiers no two of them carry
the same pair of field elements. -/
theorem nullifiers_distinct_of_canonical (T : Config A L) (s : State L)
    (xs : List (Extrinsic A)) (hcanon : ∀ e ∈ history (apply T) s xs, CanonicalNullifier e.2.2) :
    (history (apply T) s xs).Pairwise DistinctNullifiers := by
  have hnodup := (nullifier_keyGuard T).nodup_history s xs hcanon
  refine (List.nodup_flatMap.1 hnodup).2.imp ?_
  intro e e' hdisj n hn n' hn' heq
  have hmem : unpack n ∈ (e.2.2.v2Nullifier.map unpack).toList := by
    rw [Option.mem_def.1 hn]
    simp
  have hmem' : unpack n ∈ (e'.2.2.v2Nullifier.map unpack).toList := by
    rw [Option.mem_def.1 hn', heq]
    simp
  exact hdisj hmem hmem'

/-- The withdrawal of nothing, with a note of value zero. -/
def zeroWithdrawal : SpendAir.SpendPI := { SpendAir.zeroPI with mode := 0 }

/-- A STARK verifier that accepts one statement, which has a satisfying trace. -/
def circuitPrimitives : Verifier.Primitives :=
  { acceptingPrimitives SpendAir.zeroBlake3 with
    verifySpendAir := fun _ pi => pi.toElements = zeroWithdrawal.toElements }

def circuitConfig : Config (U8Array 32) (U8Array 32 → ℕ) :=
  { acceptingConfig SpendAir.zeroBlake3 with
    proofVerifier := runtimeProofVerifier circuitPrimitives }

theorem circuit_reads_elements {pi pi' : SpendAir.SpendPI} (h : pi.toElements = pi'.toElements)
    (proof : List UInt8) :
    circuitPrimitives.verifySpendAir proof pi = circuitPrimitives.verifySpendAir proof pi' := by
  simp only [circuitPrimitives, h]

theorem circuit_satisfiable {pi : SpendAir.SpendPI} {proof : List UInt8}
    (h : circuitPrimitives.verifySpendAir proof pi = true) :
    ∃ t : Trace BaseElement 8192 14,
      (SpendAir.spendAir SpendAir.zeroBlake3 pi).Satisfies t := by
  rw [SpendAir.spendAir_congr SpendAir.zeroBlake3 (of_decide_eq_true h)]
  exact ⟨SpendAir.zeroTrace, SpendAir.zeroTrace_satisfies_mode 0⟩

/-- The modulus in the low half. -/
def modulusNullifier : U8Array 32 := ⟨leBytes 16 baseModulus ++ leBytes 16 0, by simp⟩

theorem unpack_modulusNullifier : unpack modulusNullifier = (0, 0) := by
  have hlow : leNat (leBytes 16 baseModulus) = baseModulus :=
    leNat_leBytes_of_lt (by rw [baseModulus_eq]; norm_num)
  have hhigh : leNat ((leBytes 16 0).take 16) = 0 := rfl
  have hcast : BaseElement.new baseModulus = 0 := ZMod.natCast_self baseModulus
  have hzero : BaseElement.new 0 = 0 := Nat.cast_zero
  simp [unpack, unpackHalf, modulusNullifier, List.Vector.toList, hlow, hhigh, hcast, hzero]

def zeroWithdrawalInputs (nf : U8Array 32) : WithdrawPublicV2 where
  merkleRoot := U8Array.zero 32
  nullifier := nf
  amount := 0
  destination := U8Array.zero 32
  txId := U8Array.zero 16

def zeroWithdrawalCall (nf : U8Array 32) : Extrinsic (U8Array 32) :=
  (.none, .withdrawV2 anyAuth (zeroWithdrawalInputs nf).encode [])

/-- The withdrawal goes through under every unmarked byte string of the nullifier
zero. -/
theorem zeroWithdrawal_succeeds {s : State (U8Array 32 → ℕ)} {nf : U8Array 32}
    (hfresh : s.nullifierUsed nf = false) (hnf : unpack nf = (0, 0))
    (hroot : s.currentRootV2 = U8Array.zero 32) :
    ∃ s', apply circuitConfig s (zeroWithdrawalCall nf) = .ok s' := by
  have hproof : circuitConfig.proofVerifier.verifySpendV2 [] (U8Array.zero 32) nf
      (pkDigest circuitConfig.blake3 (anyAuth.take 1312)) 0
      circuitConfig.proofVerifier.v2ZeroChangeLeaf (U8Array.zero 32) false = true := by
    refine decide_eq_true ?_
    have hleaf := SpendAir.unpack_zeroChangeLeaf
    have hpkd : pkDigest circuitConfig.blake3 (anyAuth.take 1312) = U8Array.zero 32 := rfl
    have hchange : circuitConfig.proofVerifier.v2ZeroChangeLeaf =
      zeroChangeLeaf (poseidonHashes SpendAir.zeroBlake3) := rfl
    simp [SpendAir.SpendPI.toElements, zeroWithdrawal, SpendAir.zeroPI, hnf, hchange, hpkd, hleaf]
  have hspend : Spendable circuitConfig s anyAuth (zeroWithdrawalInputs nf).encode []
      (U8Array.zero 32) nf 0 circuitConfig.proofVerifier.v2ZeroChangeLeaf (U8Array.zero 32)
      true :=
    ⟨hfresh, .inl hroot.symm, Verifier.verifySigned_eq_true.2 ⟨anyAuth_length, rfl⟩,
      by rw [anyAuth_length]; norm_num, hproof⟩
  have hpay := balances_transfer_of_le (Nat.zero_le (s.ledger (U8Array.zero 32)))
    (U8Array.zero 32) .allowDeath
  exact ⟨_, withdrawV2_eq_ok.2 ⟨rfl, _, WithdrawPublicV2.decode_encode _, hspend, _,
    payFromPool_eq_ok.2 ⟨_, rfl, _, hpay, rfl⟩, rfl⟩⟩

/-- The verifier accepts only satisfiable statements and reads only their elements,
and from genesis one pair of elements is withdrawn twice. -/
theorem nullifier_withdrawn_twice :
    (∀ pi pi' : SpendAir.SpendPI, pi.toElements = pi'.toElements → ∀ proof,
        circuitPrimitives.verifySpendAir proof pi = circuitPrimitives.verifySpendAir proof pi') ∧
      (∀ pi proof, circuitPrimitives.verifySpendAir proof pi = true →
        ∃ t : Trace BaseElement 8192 14,
          (SpendAir.spendAir SpendAir.zeroBlake3 pi).Satisfies t) ∧
      ¬ ∀ xs : List (Extrinsic (U8Array 32)),
        (history (apply circuitConfig) (genesis tenEach) xs).Pairwise DistinctNullifiers := by
  refine ⟨fun _ _ => circuit_reads_elements, fun _ _ => circuit_satisfiable, fun hclaim => ?_⟩
  obtain ⟨s₁, h₁⟩ := @zeroWithdrawal_succeeds (genesis tenEach) (U8Array.zero 32) rfl unpack_zero
    rfl
  have heff := effect_of_apply h₁
  simp only [zeroWithdrawalCall, Call.footprint, WithdrawPublicV2.decode_encode,
    Option.elim_some] at heff
  have hfresh : s₁.nullifierUsed modulusNullifier = false := by
    have hne : modulusNullifier ≠ U8Array.zero 32 := by decide
    rw [heff.nullifierUsed]
    exact Function.update_of_ne hne _ _
  obtain ⟨s₂, h₂⟩ := zeroWithdrawal_succeeds hfresh unpack_modulusNullifier heff.tree.2.1
  have hpairs := hclaim [zeroWithdrawalCall (U8Array.zero 32), zeroWithdrawalCall modulusNullifier]
  rw [history_cons_ok h₁, history_cons_ok h₂, history_nil] at hpairs
  have hnullifier (nf : U8Array 32) : (zeroWithdrawalCall nf).2.v2Nullifier = some nf := by
    rw [zeroWithdrawalCall, Call.v2Nullifier, WithdrawPublicV2.decode_encode]
    rfl
  refine List.pairwise_pair.1 hpairs _ (hnullifier _) _ (hnullifier _) ?_
  rw [unpack_zero, unpack_modulusNullifier]

theorem canonicalNullifier_rebuyCall {s : State L} {n : ℕ}
    (hn : packPair (unpack (U8Array.ofNat 32 n)) = U8Array.ofNat 32 n) :
    CanonicalNullifier (rebuyCall s n).2 := fun nf hnf => by
  rw [rebuyCall, Call.v2Nullifier, SpendPublicV2.decode_encode] at hnf
  obtain rfl : U8Array.ofNat 32 n = nf := Option.some.inj hnf
  exact hn

/-- Two spends that go through one after the other, under the canonical nullifiers
one and two. -/
theorem rebuys_nullifiers_distinct : ∃ s₀ s₁ s₂,
    apply (acceptingConfig tailHash) s₀ (rebuyCall s₀ 1) = .ok s₁ ∧
      apply (acceptingConfig tailHash) s₁ (rebuyCall s₁ 2) = .ok s₂ ∧
      (history (apply (acceptingConfig tailHash)) s₀ [rebuyCall s₀ 1, rebuyCall s₁ 2]).Pairwise
        DistinctNullifiers := by
  obtain ⟨s₀, s₁, s₂, -, -, h₁, h₂, -, -⟩ := rebuy_succeeds tailHash
  refine ⟨s₀, s₁, s₂, h₁, h₂, nullifiers_distinct_of_canonical _ s₀ _ fun e he => ?_⟩
  obtain h | h := List.mem_pair.1 (mem_of_mem_history he)
  · rw [h]
    exact canonicalNullifier_rebuyCall (by decide)
  · rw [h]
    exact canonicalNullifier_rebuyCall (by decide)

end NullaRelay.ProofHub
